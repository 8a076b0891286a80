import Typings.Json.Quoted
import Typings.Proofs.Text.Basic
import Typings.Toml.Document

/-!
# Written tables

A document of one table, with the name of the table in a header, a line for each key and every text
in double quotes, is read back as that table (`Document.read?_write`).
-/

namespace Typings.Toml

variable {c : Char} {r s rest key name : Text}

theorem skipSpaces_cons (hc : isSpace c = false) : skipSpaces (c :: r) = c :: r :=
  List.dropWhile_cons_of_neg (by simp [hc])

/-! ## Quoted text -/

namespace Quoted

/-- Writes a character between double quotes, by its code point if it may not stand for itself. -/
def escape (c : Char) : Text :=
  if c = '"' ∨ c = '\\' then ['\\', c]
  else if isPlain c then [c]
  else
    ['\\', 'u', '0', '0', Json.Quoted.hexDigit (c.toNat / 16), Json.Quoted.hexDigit (c.toNat % 16)]

/-- Writes a text in double quotes on one line. -/
def write (s : Text) : Text := '"' :: (s.flatMap escape ++ ['"'])

theorem hexValue?_hexDigit {n : Nat} (h : n < 16) :
    hexValue? (Json.Quoted.hexDigit n) = some n := by
  have hall : ∀ n < 16, hexValue? (Json.Quoted.hexDigit n) = some n := by decide
  exact hall n h

theorem toNat_lt_of_not_isPlain (h : isPlain c = false) : c.toNat < 0x80 := by
  simp only [isPlain, Bool.or_eq_false_iff, Bool.and_eq_false_iff, decide_eq_false_iff_not,
    bne_eq_false_iff_eq] at h
  omega

theorem escape?_codePoint (h : c.toNat < 0x80) (rest : Text) :
    escape? ('u' :: '0' :: '0' :: Json.Quoted.hexDigit (c.toNat / 16) ::
      Json.Quoted.hexDigit (c.toNat % 16) :: rest) = some (c, rest) := by
  have hzero : hexValue? '0' = some 0 := by decide
  have hhigh := hexValue?_hexDigit (n := c.toNat / 16) (by omega)
  have hlow := hexValue?_hexDigit (n := c.toNat % 16) (by omega)
  have hn : ((0 * 16 + 0) * 16 + c.toNat / 16) * 16 + c.toNat % 16 = c.toNat := by omega
  have hscalar : c.toNat < 0xD800 ∨ (0xDFFF < c.toNat ∧ c.toNat < 0x110000) := .inl (by omega)
  simp only [escape?, scalar?, hex?, hzero, hhigh, hlow, Nat.zero_mul, Nat.add_zero, hn,
    if_pos hscalar, Char.ofNat_toNat]

theorem basic?_backslash (h : escape? r = some (c, rest)) :
    basic? ('\\' :: r) = (basic? rest).map fun (s, t) => (c :: s, t) := by
  rw [basic?.eq_3]
  split
  · next e =>
    rw [h] at e
    cases e
  · next e =>
    rw [h] at e
    cases e
    rfl

/-- What is written for a character is read as that character. -/
theorem basic?_escape (c : Char) (rest : Text) :
    basic? (escape c ++ rest) = (basic? rest).map fun (s, t) => (c :: s, t) := by
  unfold escape
  split
  · next h =>
    rcases h with rfl | rfl
    · exact basic?_backslash rfl
    · exact basic?_backslash rfl
  split
  · next hc h =>
    rw [not_or] at hc
    rw [List.singleton_append, basic?.eq_4 _ _ hc.1 hc.2, if_pos h]
  · next h =>
    exact basic?_backslash (escape?_codePoint (toNat_lt_of_not_isPlain (by simpa using h)) rest)

theorem basic?_append (s rest : Text) :
    basic? (s.flatMap escape ++ '"' :: rest) = some (s, rest) := by
  induction s with
  | nil => rw [List.flatMap_nil, List.nil_append, basic?.eq_2]
  | cons c s ih =>
    rw [List.flatMap_cons, List.append_assoc, basic?_escape, ih]
    rfl

theorem head?_escape_append (c : Char) (s : Text) : (escape c ++ s).head? ≠ some '"' := by
  unfold escape
  split
  · simp
  split
  · next h _ =>
    rw [not_or] at h
    simpa using h.1
  · simp

/-- A written text is read back unless one more quote follows it. -/
theorem read?_write (s : Text) (h : rest.head? ≠ some '"') :
    read? (write s ++ rest) = some (s, rest) := by
  have hthree : ∀ r, s.flatMap escape ++ '"' :: rest ≠ '"' :: '"' :: r := by
    intro r hr
    cases s with
    | nil =>
      simp only [List.flatMap_nil, List.nil_append, List.cons.injEq, true_and] at hr
      simp [hr] at h
    | cons c s =>
      have hhead := head?_escape_append c (s.flatMap escape ++ '"' :: rest)
      rw [← List.append_assoc, ← List.flatMap_cons, hr] at hhead
      exact hhead rfl
  have hwrite : write s ++ rest = '"' :: (s.flatMap escape ++ '"' :: rest) := by simp [write]
  rw [hwrite, read?.eq_3 _ (fun r hr ↦ hthree r hr), basic?_append]

end Quoted

/-! ## Values -/

/-- A value that is written on one line. -/
inductive Atom where
  | text (s : Text)
  | boolean (b : Bool)
deriving DecidableEq, Repr

namespace Atom

def node : Atom → Node
  | .text s => .text s
  | .boolean b => .boolean b

/-- The word for a truth value. -/
def word (b : Bool) : Text := if b then "true".toList else "false".toList

def write : Atom → Text
  | .text s => Quoted.write s
  | .boolean b => word b

theorem plain?_text {t : Text} (h : Quoted.read? s = some (t, rest)) :
    plain? s = some (.text t, ⟨rest, Quoted.length_read?_lt h⟩) := by
  unfold plain?
  split
  · next e =>
    rw [h] at e
    cases e
    rfl
  · next e =>
    rw [h] at e
    cases e

theorem plain?_word {b : Bool} (hs : Quoted.read? s = none)
    (hsplit : Scalar.split s = (word b, rest)) (hrest : rest.length < s.length) :
    plain? s = some (.boolean b, ⟨rest, hrest⟩) := by
  unfold plain?
  split
  · next e =>
    rw [hs] at e
    cases e
  · cases b with
    | true => simp [hsplit, word, hrest]
    | false => simp [hsplit, word, hrest]

theorem plain?_write (a : Atom) (rest : Text) :
    ∃ t, plain? (a.write ++ '\n' :: rest) = some (a.node, t) ∧ t.1 = '\n' :: rest := by
  cases a with
  | text s => exact ⟨_, plain?_text (Quoted.read?_write s (by simp)), rfl⟩
  | boolean b =>
    have hread : Quoted.read? (word b ++ '\n' :: rest) = none := by cases b <;> rfl
    have hsplit : Scalar.split (word b ++ '\n' :: rest) = (word b, '\n' :: rest) := by
      cases b <;> rfl
    refine ⟨_, plain?_word hread hsplit ?_, rfl⟩
    cases b <;> simp [word]

/-- A written value opens no array and no table. -/
theorem exists_write_append_eq (a : Atom) (s : Text) :
    ∃ c t, a.write ++ s = c :: t ∧ c ≠ '[' ∧ c ≠ '{' ∧ isSpace c = false := by
  cases a with
  | text t => exact ⟨'"', t.flatMap Quoted.escape ++ ['"'] ++ s, rfl, by decide⟩
  | boolean b =>
    cases b with
    | true => exact ⟨'t', "rue".toList ++ s, rfl, by decide⟩
    | false => exact ⟨'f', "alse".toList ++ s, rfl, by decide⟩

theorem value?_write (a : Atom) (rest : Text) :
    ∃ t, value? (skipSpaces (' ' :: (a.write ++ '\n' :: rest))) = some (a.node, t) ∧
      t.1 = '\n' :: rest := by
  have hplain := plain?_write a rest
  obtain ⟨c, t, e, harray, htable, hspace⟩ := exists_write_append_eq a ('\n' :: rest)
  rw [e] at hplain ⊢
  have hskip : skipSpaces (' ' :: c :: t) = c :: t := by
    rw [skipSpaces, List.dropWhile_cons_of_pos (by decide)]
    exact skipSpaces_cons hspace
  have hopens : ∀ d r, d = '[' ∨ d = '{' → c :: t ≠ d :: r := by
    rintro d r hd hr
    cases hr
    exact hd.elim harray htable
  rw [hskip, value?, valueWithin?.eq_5]
  · exact hplain
  · exact fun r hr _ ↦ hopens _ r (.inl rfl) hr
  · exact fun r hr _ ↦ hopens _ r (.inr rfl) hr
  · exact fun r _ hr _ ↦ hopens _ r (.inl rfl) hr
  · exact fun r _ hr _ ↦ hopens _ r (.inr rfl) hr

end Atom

/-! ## Lines -/

theorem skipTrivia?_nil : skipTrivia? [] = some [] := by
  rw [skipTrivia?]
  split
  · rfl
  · next e => cases e

theorem skipTrivia?_cons (hspace : isSpace c = false) (hc : c ≠ '#')
    (hfeed : c ≠ '\n') (hreturn : c ≠ '\r') : skipTrivia? (c :: r) = some (c :: r) := by
  rw [skipTrivia?]
  split
  · next e =>
    rw [skipSpaces_cons hspace] at e
    cases e
  · next e =>
    rw [skipSpaces_cons hspace] at e
    cases e
    rw [if_neg (by simp [hc, hfeed, hreturn])]

/-- A key that needs no quotes. -/
def IsBareKey (key : Text) : Prop := key ≠ [] ∧ ∀ c ∈ key, KeyPath.isBare c = true

instance (key : Text) : Decidable (IsBareKey key) :=
  decidable_of_iff (key ≠ [] ∧ key.all KeyPath.isBare = true) (by simp [IsBareKey])

namespace KeyPath

theorem isBare_ne (h : isBare c = true) :
    isSpace c = false ∧ c ≠ '"' ∧ c ≠ '\'' ∧ c ≠ '[' ∧ c ≠ '#' ∧ c ≠ '\n' ∧ c ≠ '\r' := by
  refine ⟨?_, ?_⟩
  · rw [← Bool.not_eq_true]
    intro hs
    simp only [isSpace, Bool.or_eq_true, beq_iff_eq] at hs
    rcases hs with rfl | rfl <;> exact absurd h (by decide)
  · refine ⟨?_, ?_, ?_, ?_, ?_, ?_⟩ <;> rintro rfl <;> exact absurd h (by decide)

theorem single?_append (hkey : IsBareKey key) (hrest : Text.Stops isBare rest) :
    single? (key ++ rest) = some (key, rest) := by
  obtain ⟨hne, hbare⟩ := hkey
  obtain ⟨c, k, rfl⟩ := List.exists_cons_of_ne_nil hne
  obtain ⟨_, hdouble, hsingle, _⟩ := isBare_ne (hbare c List.mem_cons_self)
  rw [List.cons_append, single?.eq_3 _ (by simpa using hdouble) (by simpa using hsingle),
    ← List.cons_append, Text.takeWhile_append_of_stops hbare hrest,
    Text.dropWhile_append_of_stops hbare hrest]
  rfl

theorem skipSpaces_append (hkey : IsBareKey key) (rest : Text) :
    skipSpaces (key ++ rest) = key ++ rest := by
  obtain ⟨c, k, rfl⟩ := List.exists_cons_of_ne_nil hkey.1
  exact skipSpaces_cons (isBare_ne (hkey.2 c List.mem_cons_self)).1

theorem append_ne_bracket (hkey : IsBareKey key) (rest r : Text) : key ++ rest ≠ '[' :: r := by
  obtain ⟨c, k, rfl⟩ := List.exists_cons_of_ne_nil hkey.1
  obtain ⟨_, _, _, hbracket, _⟩ := isBare_ne (hkey.2 c List.mem_cons_self)
  intro h
  cases h
  exact hbracket rfl

/-- A bare key is a path by itself if no dot follows it. -/
theorem read?_append (hkey : IsBareKey key) (hrest : Text.Stops isBare rest)
    (hdot : (skipSpaces rest).head? ≠ some '.') :
    read? (key ++ rest) = some (⟨[], key⟩, skipSpaces rest) := by
  have hchain : chain? (key ++ rest) = some (⟨[], key⟩, skipSpaces rest) := by
    rw [chain?, skipSpaces_append hkey]
    split
    · next e =>
      rw [single?_append hkey hrest] at e
      cases e
    · next e =>
      rw [single?_append hkey hrest] at e
      cases e
      split
      · next t ht =>
        rw [ht] at hdot
        exact absurd rfl hdot
      · rfl
  rw [read?, hchain]
  rfl

end KeyPath

namespace Statement

theorem expect?_append (expected rest : Text) : expect? expected (expected ++ rest) = some rest := by
  rw [expect?, if_pos (List.isPrefixOf_iff_prefix.mpr (List.prefix_append _ _)), List.drop_left]

theorem read?_table (hname : IsBareKey name) (rest : Text) :
    read? ('[' :: (name ++ ']' :: rest)) = some (.table ⟨[], name⟩, rest) := by
  have hstops : Text.Stops KeyPath.isBare (']' :: rest) := by
    rw [Text.stops_cons]
    decide
  have hpath := KeyPath.read?_append hname hstops (by simp [skipSpaces, isSpace])
  have hskip : skipSpaces (']' :: rest) = "]".toList ++ rest := by simp [skipSpaces, isSpace]
  rw [read?.eq_2 _ (KeyPath.append_ne_bracket hname _), hpath, hskip]
  simp only [Option.bind_eq_bind, Option.bind_some, expect?_append, Option.pure_def]

/-- Writes a key and its value on a line. -/
def writeLine (e : Text × Atom) : Text := e.1 ++ " = ".toList ++ e.2.write ++ ['\n']

theorem read?_line {e : Text × Atom} (hkey : IsBareKey e.1) (rest : Text) :
    read? (writeLine e ++ rest) = some (.pair ⟨[], e.1⟩ e.2.node, '\n' :: rest) := by
  obtain ⟨key, a⟩ := e
  have hline : writeLine (key, a) ++ rest =
      key ++ ' ' :: '=' :: ' ' :: (a.write ++ '\n' :: rest) := by
    simp [writeLine]
  have hstops : Text.Stops KeyPath.isBare (' ' :: '=' :: ' ' :: (a.write ++ '\n' :: rest)) := by
    rw [Text.stops_cons]
    decide
  have hpath := KeyPath.read?_append hkey hstops (by simp [skipSpaces, isSpace])
  have hskip : skipSpaces (' ' :: '=' :: ' ' :: (a.write ++ '\n' :: rest)) =
      "=".toList ++ ' ' :: (a.write ++ '\n' :: rest) := by
    simp [skipSpaces, isSpace]
  obtain ⟨t, hvalue, ht⟩ := Atom.value?_write a rest
  have hbracket := KeyPath.append_ne_bracket hkey (' ' :: '=' :: ' ' :: (a.write ++ '\n' :: rest))
  rw [hline, read?.eq_3 _ (fun r ↦ hbracket _) hbracket, hpath, hskip]
  simp only [Option.bind_eq_bind, Option.bind_some, expect?_append, hvalue, Option.pure_def, ht]

/-- A statement that is alone on its line is read in front of the next lines. -/
theorem readAll?_line {st : Statement} (hs : s ≠ []) (htrivia : skipTrivia? s = some s)
    (h : read? s = some (st, '\n' :: rest)) :
    readAll? s = (readAll? rest).map (st :: ·) := by
  rw [readAll?]
  split
  · next e =>
    rw [htrivia] at e
    cases e
  · next e =>
    rw [htrivia] at e
    cases e
    exact absurd rfl hs
  · next e =>
    rw [htrivia] at e
    cases e
    split
    · next e =>
      rw [h] at e
      cases e
    · next e =>
      rw [h] at e
      cases e
      rfl

theorem readAll?_nil : readAll? [] = some [] := by
  rw [readAll?]
  split
  · next e =>
    rw [skipTrivia?_nil] at e
    cases e
  · rfl
  · next e =>
    rw [skipTrivia?_nil] at e
    cases e

theorem readAll?_lines {es : List (Text × Atom)} (hkeys : ∀ e ∈ es, IsBareKey e.1) :
    readAll? (es.flatMap writeLine) = some (es.map fun e ↦ .pair ⟨[], e.1⟩ e.2.node) := by
  induction es with
  | nil => exact readAll?_nil
  | cons e es ih =>
    obtain ⟨hkey, hkeys⟩ := List.forall_mem_cons.mp hkeys
    obtain ⟨c, k, hck⟩ := List.exists_cons_of_ne_nil hkey.1
    obtain ⟨hspace, _, _, _, hhash, hfeed, hreturn⟩ :=
      KeyPath.isBare_ne (hkey.2 c (hck ▸ List.mem_cons_self))
    have hline : writeLine e ++ es.flatMap writeLine =
        c :: (k ++ " = ".toList ++ e.2.write ++ ['\n'] ++ es.flatMap writeLine) := by
      simp [writeLine, hck]
    have hread := read?_line hkey (es.flatMap writeLine)
    have htrivia : skipTrivia? (writeLine e ++ es.flatMap writeLine) =
        some (writeLine e ++ es.flatMap writeLine) := by
      rw [hline]
      exact skipTrivia?_cons hspace hhash hfeed hreturn
    have hne : writeLine e ++ es.flatMap writeLine ≠ [] := by
      rw [hline]
      exact List.cons_ne_nil _ _
    rw [List.flatMap_cons, readAll?_line hne htrivia hread, ih hkeys]
    rfl

end Statement

/-! ## Tables -/

namespace Fields

theorem set_of_notMem {fs : Fields} {n : Node} (hkey : key ∉ fs.map (·.1)) :
    fs.set key n = fs ++ [(key, n)] := by
  induction fs with
  | nil => rfl
  | cons f fs ih =>
    rw [List.map_cons, List.mem_cons, not_or] at hkey
    rw [set, if_neg (Ne.symm hkey.1), ih hkey.2, List.cons_append]

theorem add?_of_notMem {fs : Fields} {n : Node} (hkey : key ∉ fs.map (·.1)) :
    fs.add? key n = some (fs ++ [(key, n)]) := by
  have hlookup : fs.lookup key = none := by
    rw [List.lookup_eq_none_iff]
    intro f hf
    rw [bne_iff_ne]
    rintro rfl
    exact hkey (List.mem_map_of_mem hf)
  rw [add?, hlookup, set_of_notMem hkey]

end Fields

namespace Statement

/-- A new key goes to the end of the table of the header above. -/
theorem carryOut?_pair {fs : Fields} {n : Node} (hkey : key ∉ fs.map (·.1)) :
    carryOut? ⟨[(name, .table .header fs)], [name]⟩ (.pair ⟨[], key⟩ n) =
      some ⟨[(name, .table .header (fs ++ [(key, n)]))], [name]⟩ := by
  have hadd := Fields.add?_of_notMem (n := n) hkey
  simp [carryOut?, Fields.update?, Fields.assign?, hadd, Fields.set]

theorem foldlM_carryOut? (name : Text) {es : List (Text × Atom)} {fs : Fields}
    (hnodup : (fs.map (·.1) ++ es.map (·.1)).Nodup) :
    (es.map fun e ↦ Statement.pair ⟨[], e.1⟩ e.2.node).foldlM carryOut?
        ⟨[(name, .table .header fs)], [name]⟩ =
      some ⟨[(name, .table .header (fs ++ es.map fun e ↦ (e.1, e.2.node)))], [name]⟩ := by
  induction es generalizing fs with
  | nil => simp
  | cons e es ih =>
    have hkey : e.1 ∉ fs.map (·.1) := fun h ↦
      (List.nodup_append.mp hnodup).2.2 _ h _ List.mem_cons_self rfl
    have hnext : ((fs ++ [(e.1, e.2.node)]).map (·.1) ++ es.map (·.1)).Nodup := by
      simpa using hnodup
    rw [List.map_cons, List.foldlM_cons, carryOut?_pair hkey, Option.bind_eq_bind, Option.bind_some,
      ih hnext, List.append_assoc, List.singleton_append, List.map_cons]

end Statement

namespace Document

/-- Writes a document of one table. -/
def write (name : Text) (es : List (Text × Atom)) : Text :=
  '[' :: (name ++ ']' :: '\n' :: es.flatMap Statement.writeLine)

/-- A written table is read back. -/
theorem read?_write {es : List (Text × Atom)} (hname : IsBareKey name)
    (hkeys : ∀ e ∈ es, IsBareKey e.1) (hnodup : (es.map (·.1)).Nodup) :
    read? (write name es) = some [(name, .table .header (es.map fun e ↦ (e.1, e.2.node)))] := by
  have hall : Statement.readAll? (write name es) =
      some (.table ⟨[], name⟩ :: es.map fun e ↦ .pair ⟨[], e.1⟩ e.2.node) := by
    rw [write, Statement.readAll?_line (List.cons_ne_nil _ _)
        (skipTrivia?_cons (by decide) (by decide) (by decide) (by decide))
        (Statement.read?_table hname _), Statement.readAll?_lines hkeys]
    rfl
  have hfold := @Statement.foldlM_carryOut? name es [] hnodup
  have hmark : skipMark (write name es) = write name es := rfl
  have hopen : Statement.carryOut? {} (.table ⟨[], name⟩) =
      some ⟨[(name, .table .header [])], [name]⟩ := rfl
  rw [read?, hmark, hall]
  simp only [Option.bind_eq_bind, Option.bind_some, List.foldlM_cons, hopen, hfold,
    List.nil_append, Option.pure_def]

example : write "enums".toList [("input".toList, .text "a\"\n".toList)] =
    "[enums]\ninput = \"a\\\"\\u000a\"\n".toList := by decide

end Document

end Typings.Toml
