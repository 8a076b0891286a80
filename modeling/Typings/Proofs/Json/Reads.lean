import Mathlib.Data.List.Forall2
import Typings.Json.Reader
import Typings.Json.Writer
import Typings.Proofs.Json.Number
import Typings.Proofs.Json.Quoted

/-!
# Values read back

`Reads` says that a reader takes off the front of a text what a writer put there, in every layout.
It holds of quoted texts and counts, and goes over to lists (`Reads.list`) and to objects whose
fields it holds of (`Reads.object`).  A text that is one value is then read as that value
(`Reads.read_write`).
-/

namespace Typings.Json

open Text (Stops)

/-- The writer starts with a character that is no space and closes no list. -/
def Writer.IsValue (w : Writer) : Prop :=
  ∀ l depth, ∃ c t, w l depth = c :: t ∧ Reader.isSpace c = false ∧ c ≠ ']'

/-- What the writer writes is read as the value, behind any spaces, and what follows it is left if
it goes on as no number. -/
structure Reads {α : Type} (reader : Reader α) (w : Writer) (a : α) : Prop where
  isValue : w.IsValue
  read : ∀ l depth spaces rest, (∀ c ∈ spaces, Reader.isSpace c = true) →
    Stops Number.continues rest → reader (spaces ++ (w l depth ++ rest)) = .ok (a, rest)

variable {α σ : Type} {reader : Reader α} {w : Writer} {ws : List Writer} {a : α} {as : List α}
variable {l : Layout} {depth : Nat} {spaces s t rest : Text} {c : Char} {first : Bool}

/-! ## Spaces -/

theorem Writer.isSpace_lineStart (l : Layout) (depth : Nat) :
    ∀ c ∈ lineStart l depth, Reader.isSpace c = true := by
  cases l with
  | compact => exact nofun
  | indented =>
    intro c hc
    rcases List.mem_cons.mp hc with rfl | hc
    · rfl
    · rw [List.eq_of_mem_replicate hc]
      rfl

theorem Writer.exists_colon_eq (l : Layout) :
    ∃ spaces, colon l = ':' :: spaces ∧ ∀ c ∈ spaces, Reader.isSpace c = true := by
  cases l with
  | compact => exact ⟨[], rfl, nofun⟩
  | indented => exact ⟨[' '], rfl, List.all_eq_true.mp rfl⟩

namespace Reader

theorem skipSpaces_append (hspaces : ∀ c ∈ spaces, isSpace c = true) (hc : isSpace c = false)
    (t : Text) : skipSpaces (spaces ++ c :: t) = c :: t :=
  Text.dropWhile_append_of_stops hspaces (Text.stops_cons.mpr hc)

theorem skipSpaces_append_isValue (hspaces : ∀ c ∈ spaces, isSpace c = true) (hw : w.IsValue)
    (l : Layout) (depth : Nat) (rest : Text) :
    skipSpaces (spaces ++ (w l depth ++ rest)) = w l depth ++ rest := by
  obtain ⟨c, t, hwrite, hc, -⟩ := hw l depth
  rw [hwrite, List.cons_append, skipSpaces_append hspaces hc]

end Reader

theorem Writer.IsValue.length_pos (h : w.IsValue) (l : Layout) (depth : Nat) :
    0 < (w l depth).length := by
  obtain ⟨c, t, e, -⟩ := h l depth
  rw [e]
  exact Nat.zero_lt_succ _

theorem Reads.read_self (h : Reads reader w a) (l : Layout) (depth : Nat)
    (hrest : Stops Number.continues rest) :
    reader (w l depth ++ rest) = .ok (a, rest) :=
  h.read l depth [] rest nofun hrest

/-! ## Quoted texts and counts -/

theorem Reads.text (s : Text) : Reads Reader.text (Writer.text s) s where
  isValue := fun _ _ ↦ ⟨'"', _, rfl, rfl, by decide⟩
  read := by
    intro l depth spaces rest hspaces _
    rw [Writer.text, Quoted.write_append, Reader.text, Reader.skipSpaces_append hspaces rfl]
    exact Quoted.readBody_append s rest

theorem isSpace_of_isDigit (h : c.isDigit = true) : Reader.isSpace c = false ∧ c ≠ ']' := by
  constructor
  · rw [← Bool.not_eq_true]
    intro hspace
    simp only [Reader.isSpace, Bool.or_eq_true, beq_iff_eq] at hspace
    rcases hspace with ((rfl | rfl) | rfl) | rfl <;> cases h
  · rintro rfl
    cases h

theorem Reads.count {n : Nat} (h : n < Number.bound) :
    Reads Reader.count (Writer.count n) n := by
  have hdigits : ∀ c ∈ Nat.toDigits 10 n, c.isDigit = true := Number.isDigit_of_mem_digits
  obtain ⟨c, t, e⟩ := List.exists_cons_of_ne_nil (Nat.toDigits_ne_nil (n := n) (b := 10))
  have hc : c.isDigit = true := hdigits c (e ▸ List.mem_cons_self)
  have hspace := isSpace_of_isDigit hc
  refine ⟨fun _ _ ↦ ⟨c, t, e, hspace⟩, ?_⟩
  intro l depth spaces rest hspaces hrest
  have hread := Number.read_toDigits_append h hrest
  rw [e, List.cons_append] at hread
  rw [Writer.count, e, List.cons_append, Reader.count, Reader.skipSpaces_append hspaces hspace.1]
  simp only [hc, or_true, if_true, hread]

/-- A value that starts no `null` is read where it may be missing. -/
theorem Reads.optional (h : Reads reader w a) (hn : ∀ l depth, (w l depth).head? ≠ some 'n') :
    Reads (Reader.optional reader) w (some a) where
  isValue := h.isValue
  read := by
    intro l depth spaces rest hspaces hrest
    rw [Reader.optional, Reader.skipSpaces_append_isValue hspaces h.isValue]
    split
    · next r e =>
      obtain ⟨c, t, hwrite, -⟩ := h.isValue l depth
      rw [hwrite, List.cons_append] at e
      exact absurd (by rw [hwrite, List.head?_cons, (List.cons.inj e).1]) (hn l depth)
    · rw [h.read_self l depth hrest]
      rfl

/-! ## Groups -/

namespace Writer

/-- Items as they stand behind an item, each behind a comma. -/
def tail (l : Layout) (depth : Nat) (ws : List Writer) : Text :=
  ws.flatMap fun w ↦ ',' :: (lineStart l depth ++ w l depth)

/-- What stands in a group behind its opening bracket. -/
def inside (closing : Char) (l : Layout) (depth : Nat) : List Writer → Text
  | [] => [closing]
  | w :: ws => lineStart l (depth + 1) ++ (w l (depth + 1) ++
      (tail l (depth + 1) ws ++ (lineStart l depth ++ [closing])))

theorem group_eq (opening closing : Char) (ws : List Writer) (l : Layout) (depth : Nat) :
    group opening closing ws l depth = opening :: inside closing l depth ws := by
  have hitems : ∀ (t : Text) (ws : List Writer), List.intercalate [','] (t :: ws.map fun w ↦
      lineStart l (depth + 1) ++ w l (depth + 1)) = t ++ tail l (depth + 1) ws := by
    intro t ws
    induction ws generalizing t with
    | nil => simp [tail]
    | cons w ws ih => simp [List.intercalate_cons_cons, ih, tail]
  cases ws with
  | nil => rfl
  | cons w ws => simp [group, inside, hitems]

/-- Behind an item there is a comma, a space or the end of its group, so that no number goes on. -/
theorem stops_tail (l : Layout) (depth : Nat) (ws : List Writer) (closing : Char)
    (hc : Number.continues closing = false) (rest : Text) :
    Stops Number.continues (tail l (depth + 1) ws ++ (lineStart l depth ++ closing :: rest)) := by
  cases ws with
  | cons w ws => exact Text.stops_cons.mpr rfl
  | nil =>
    cases l with
    | compact => exact Text.stops_cons.mpr hc
    | indented => exact Text.stops_cons.mpr rfl

end Writer

/-! ## Lists -/

namespace Reader

variable {item : Reader α}

theorem moreItems_close (hspaces : ∀ c ∈ spaces, isSpace c = true) (first : Bool) (rest : Text) :
    moreItems first (spaces ++ ']' :: rest) = .ok (false, ']' :: rest) := by
  rw [moreItems, skipSpaces_append hspaces rfl]
  rfl

theorem moreItems_first (hspaces : ∀ c ∈ spaces, isSpace c = true) (hw : w.IsValue) (l : Layout)
    (depth : Nat) (rest : Text) :
    moreItems true (spaces ++ (w l depth ++ rest)) = .ok (true, w l depth ++ rest) := by
  obtain ⟨c, t, hwrite, hspace, hc⟩ := hw l depth
  rw [hwrite, List.cons_append, moreItems, skipSpaces_append hspaces hspace]
  split
  · next e => cases e
  · next e => exact absurd (List.cons.inj e).1 hc
  · next e =>
    cases e
    rfl

theorem moreItems_comma (hspaces : ∀ c ∈ spaces, isSpace c = true) (hw : w.IsValue) (l : Layout)
    (depth : Nat) (rest : Text) :
    moreItems false (',' :: (spaces ++ (w l depth ++ rest))) = .ok (true, w l depth ++ rest) := by
  have hskip : ∀ r, skipSpaces (',' :: r) = ',' :: r := fun _ ↦ rfl
  obtain ⟨c, t, hwrite, hspace, hc⟩ := hw l depth
  rw [moreItems, hskip, hwrite, List.cons_append]
  split
  · next e => cases e
  · next e => cases e
  · next e =>
    cases e
    rw [if_neg Bool.false_ne_true, if_pos rfl, skipSpaces_append hspaces hspace]
    split
    · next e => cases e
    · next e => exact absurd (List.cons.inj e).1 hc
    · rfl

theorem items_of_close (h : moreItems first s = .ok (false, rest)) (item : Reader α) :
    items item first s = .ok ([], rest) := by
  rw [items, h]

theorem items_of_item (hmore : moreItems first s = .ok (true, t)) (hitem : item t = .ok (a, rest))
    (hlt : rest.length < s.length) :
    items item first s = (items item false rest).map fun (as, last) => (a :: as, last) := by
  rw [items, hmore]
  simp only [hitem, if_pos hlt]

/-- Items behind commas are read up to the closing bracket. -/
theorem items_tail (h : List.Forall₂ (Reads item) ws as) (l : Layout) (depth : Nat) (rest : Text) :
    items item false (Writer.tail l (depth + 1) ws ++ (Writer.lineStart l depth ++ ']' :: rest)) =
      .ok (as, ']' :: rest) := by
  induction h with
  | nil => exact items_of_close (moreItems_close (Writer.isSpace_lineStart l depth) _ _) item
  | @cons w a ws as hw _ ih =>
    have hmore := moreItems_comma (Writer.isSpace_lineStart l (depth + 1)) hw.isValue l (depth + 1)
      (Writer.tail l (depth + 1) ws ++ (Writer.lineStart l depth ++ ']' :: rest))
    have hitem := hw.read_self l (depth + 1)
      (Writer.stops_tail l depth ws ']' rfl rest)
    rw [Writer.tail, List.flatMap_cons, List.cons_append, List.cons_append, List.append_assoc,
      List.append_assoc, ← Writer.tail, items_of_item hmore hitem (by simp; omega), ih]
    rfl

/-- Items are read up to the closing bracket of their list. -/
theorem items_inside (h : List.Forall₂ (Reads item) ws as) (l : Layout) (depth : Nat)
    (rest : Text) :
    items item true (Writer.inside ']' l depth ws ++ rest) = .ok (as, ']' :: rest) := by
  cases h with
  | nil => exact items_of_close (moreItems_close (List.forall_mem_nil _) _ _) item
  | @cons w a ws as hw hws =>
    have hmore := moreItems_first (Writer.isSpace_lineStart l (depth + 1)) hw.isValue l
      (depth + 1) (Writer.tail l (depth + 1) ws ++ (Writer.lineStart l depth ++ ']' :: rest))
    have hitem := hw.read_self l (depth + 1)
      (Writer.stops_tail l depth ws ']' rfl rest)
    have hpos := hw.isValue.length_pos l (depth + 1)
    simp only [Writer.inside, List.append_assoc, List.singleton_append]
    rw [items_of_item hmore hitem (by simp; omega), items_tail hws]
    rfl

theorem list_of_items (hspaces : ∀ c ∈ spaces, isSpace c = true)
    (h : items item true s = .ok (as, ']' :: rest)) :
    list item (spaces ++ '[' :: s) = .ok (as, rest) := by
  have hclose : close ']' (']' :: rest) = .ok ((), rest) := rfl
  rw [list, skipSpaces_append hspaces rfl]
  simp [h, hclose, bind, Except.bind]

end Reader

/-- Items that are read back are read back as a list. -/
theorem Reads.list {item : Reader α} (h : List.Forall₂ (Reads item) ws as) :
    Reads (Reader.list item) (Writer.list ws) as where
  isValue := fun l depth ↦ ⟨'[', _, Writer.group_eq _ _ _ _ _, rfl, by decide⟩
  read := by
    intro l depth spaces rest hspaces _
    rw [Writer.list, Writer.group_eq, List.cons_append]
    exact Reader.list_of_items hspaces (Reader.items_inside h l depth rest)

theorem Reads.list_map {item : Reader α} {writer : α → Writer} (h : ∀ a, Reads item (writer a) a)
    (as : List α) : Reads (Reader.list item) (Writer.list (as.map writer)) as :=
  .list (List.forall₂_map_left_iff.mpr (List.forall₂_same.mpr fun a _ ↦ h a))

/-! ## Objects -/

/-- The fields, given with their keys, take a structure that is being read from one state to
another: each is known, not set yet, and read back at its place. -/
inductive Fills (fields : List (Reader.Field σ)) : σ → List (Text × Writer) → σ → Prop
  | nil {state : σ} : Fills fields state [] state
  | cons {state state' last : σ} {key : Text} {w : Writer} {kvs : List (Text × Writer)}
    {f : Reader.Field σ} : fields.find? (·.key == key) = some f → f.isSet state = false →
    Reads (f.read state) w state' → Fills fields state' kvs last →
      Fills fields state ((key, w) :: kvs) last

variable {fields : List (Reader.Field σ)} {f : Reader.Field σ} {state state' : σ} {k : Text}
variable {kvs : List (Text × Writer)}

namespace Reader

theorem key_close (hspaces : ∀ c ∈ spaces, isSpace c = true) (first : Bool) (rest : Text) :
    key first (spaces ++ '}' :: rest) = .ok (none, '}' :: rest) := by
  rw [key, skipSpaces_append hspaces rfl]
  rfl

theorem key_first (hspaces : ∀ c ∈ spaces, isSpace c = true) (k rest : Text) :
    key true (spaces ++ (Quoted.write k ++ rest)) = .ok (some k, rest) := by
  rw [key, Quoted.write_append, skipSpaces_append hspaces rfl]
  exact congrArg (Except.map fun x : Text × Text ↦ (some x.1, x.2)) (Quoted.readBody_append k rest)

theorem key_comma (hspaces : ∀ c ∈ spaces, isSpace c = true) (k rest : Text) :
    key false (',' :: (spaces ++ (Quoted.write k ++ rest))) = .ok (some k, rest) := by
  have hcomma : ∀ r, skipSpaces (',' :: r) = ',' :: r := fun _ ↦ rfl
  rw [key, hcomma]
  simp only [Quoted.write_append, skipSpaces_append hspaces (c := '"') rfl]
  exact congrArg (Except.map fun x : Text × Text ↦ (some x.1, x.2)) (Quoted.readBody_append k rest)

theorem members_of_close (h : key first s = .ok (none, rest)) (fields : List (Field σ))
    (state : σ) : members fields first state s = .ok (state, rest) := by
  rw [members, h]

/-- The value of a known key is read from its colon on. -/
theorem value_of_find? (hfind : fields.find? (·.key == k) = some f) (hset : f.isSet state = false)
    (h : Reads (f.read state) w state') (hrest : Stops Number.continues rest) :
    value fields state k (Writer.colon l ++ (w l depth ++ rest)) = .ok (state', rest) := by
  obtain ⟨spaces, e, hspaces⟩ := Writer.exists_colon_eq l
  have hcolon : ∀ r, skipColon (':' :: r) = .ok r := fun _ ↦ rfl
  rw [value, hfind, e, List.cons_append]
  simp [hset, hcolon, bind, Except.bind, h.read l depth spaces rest hspaces hrest]

/-- A known field is read, and what follows it is left to be read. -/
theorem members_of_field {before : Text}
    (hkey : ∀ rest, key first (before ++ (Quoted.write k ++ rest)) = .ok (some k, rest))
    (hfind : fields.find? (·.key == k) = some f) (hset : f.isSet state = false)
    (h : Reads (f.read state) w state') (hrest : Stops Number.continues rest) :
    members fields first state (before ++ (Writer.field k w l depth ++ rest)) =
      members fields false state' rest := by
  have hpos := h.isValue.length_pos l depth
  rw [Writer.field, List.append_assoc, List.append_assoc, members, hkey]
  simp only [value_of_find? hfind hset h hrest]
  exact if_pos (by simp; omega)

/-- The writers of fields. -/
def fieldWriters (kvs : List (Text × Writer)) : List Writer :=
  kvs.map fun (key, value) => Writer.field key value

/-- Fields behind commas are read up to the closing brace. -/
theorem members_tail (h : Fills fields state kvs state') (l : Layout) (depth : Nat)
    (rest : Text) : members fields false state (Writer.tail l (depth + 1) (fieldWriters kvs) ++
      (Writer.lineStart l depth ++ '}' :: rest)) = .ok (state', '}' :: rest) := by
  induction h with
  | nil => exact members_of_close (key_close (Writer.isSpace_lineStart l depth) _ _) _ _
  | @cons state state' last k w kvs f hfind hset hw _ ih =>
    have hkey := key_comma (Writer.isSpace_lineStart l (depth + 1)) k
    have hstops := Writer.stops_tail l depth (fieldWriters kvs) '}' rfl rest
    simp only [fieldWriters, Writer.tail, List.map_cons, List.flatMap_cons, List.cons_append,
      List.append_assoc] at hstops ih ⊢
    rw [← List.cons_append, members_of_field hkey hfind hset hw hstops, ih]

/-- Fields are read up to the closing brace of their object. -/
theorem members_inside (h : Fills fields state kvs state') (l : Layout) (depth : Nat)
    (rest : Text) :
    members fields true state (Writer.inside '}' l depth (fieldWriters kvs) ++ rest) =
      .ok (state', '}' :: rest) := by
  cases h with
  | nil => exact members_of_close (key_close (List.forall_mem_nil _) _ _) _ _
  | @cons _ state' _ k w kvs f hfind hset hw hkvs =>
    have hkey := key_first (Writer.isSpace_lineStart l (depth + 1)) k
    have hstops := Writer.stops_tail l depth (fieldWriters kvs) '}' rfl rest
    simp only [fieldWriters, Writer.inside, List.map_cons, List.append_assoc,
      List.singleton_append] at hstops ⊢
    rw [members_of_field hkey hfind hset hw hstops]
    exact members_tail hkvs l depth rest

theorem shape_of_members {sh : Shape σ α} (hspaces : ∀ c ∈ spaces, isSpace c = true)
    (h : members sh.fields true sh.start s = .ok (state, '}' :: rest))
    (hfinish : sh.finish state = some a) :
    shape sh (spaces ++ '{' :: s) = .ok (a, rest) := by
  have hclose : close '}' ('}' :: rest) = .ok ((), rest) := rfl
  rw [shape, skipSpaces_append hspaces rfl]
  simp [h, hfinish, hclose, bind, Except.bind, Except.map]

end Reader

/-- A structure whose fields are read back is read back as an object. -/
theorem Reads.object (sh : Reader.Shape σ α) (h : Fills sh.fields sh.start kvs state)
    (hfinish : sh.finish state = some a) : Reads (Reader.shape sh) (Writer.object kvs) a where
  isValue := fun l depth ↦ ⟨'{', _, Writer.group_eq _ _ _ _ _, rfl, by decide⟩
  read := by
    intro l depth spaces rest hspaces _
    rw [Writer.object, Writer.group_eq, List.cons_append]
    exact Reader.shape_of_members hspaces (Reader.members_inside h l depth rest) hfinish

/-- A field that is kept at one place is read back there. -/
theorem Reads.at {β : Type} {key : String} {get : σ → Option β} {set : σ → β → σ}
    {value : Reader β} {default : Option β} {b : β} (h : Reads value w b) (state : σ) :
    Reads ((Reader.Field.at key get set value default).read state) w (set state b) where
  isValue := h.isValue
  read := by
    intro l depth spaces rest hspaces hrest
    exact congrArg (Except.map fun x : β × Text ↦ (set state x.1, x.2))
      (h.read l depth spaces rest hspaces hrest)

theorem Fills.append {state'' : σ} {kvs' : List (Text × Writer)} (h : Fills fields state kvs state')
    (h' : Fills fields state' kvs' state'') : Fills fields state (kvs ++ kvs') state'' := by
  induction h with
  | nil => exact h'
  | cons hfind hset hw _ ih => exact .cons hfind hset hw (ih h')

/-- A text that may be absent fills its field, or leaves it as it is. -/
theorem Fills.optional {key : String} {get : σ → Option (Option Text)}
    {set : σ → Option Text → σ} {default : Option (Option Text)}
    (hfind : fields.find? (·.key == key.toList) =
      some (.at key get set (Reader.optional Reader.text) default))
    (hget : get state = none) (s : Option Text) :
    Fills fields state (Writer.optional key.toList (s.map Writer.text))
      (s.elim state fun t ↦ set state (some t)) := by
  cases s with
  | none => exact .nil
  | some t =>
    have htext : Reads (Reader.optional Reader.text) (Writer.text t) (some t) :=
      (Reads.text t).optional nofun
    exact .cons hfind (by simp [Reader.Field.at, hget]) (.at htext state) .nil

/-! ## Names -/

/-- A quoted name is read as what it names. -/
theorem Reads.choice {names : Text → Option α} (h : names s = some a) :
    Reads (Reader.choice names) (Writer.text s) a where
  isValue := (Reads.text s).isValue
  read := by
    intro l depth spaces rest hspaces _
    have hskip : ∀ r, Reader.skipSpaces ('"' :: r) = '"' :: r := fun _ ↦ rfl
    rw [Writer.text, Quoted.write_append, Reader.choice, Reader.skipSpaces_append hspaces rfl]
    change Reader.quotedName names _ = _
    rw [Reader.quotedName, hskip]
    simp only [if_true, Quoted.readBody_append, bind, Except.bind, h]

/-! ## Whole texts -/

/-- A text that is one value, perhaps with spaces behind it, is read as that value. -/
theorem Reads.read_write_append (h : Reads reader w a) (l : Layout)
    (hspaces : ∀ c ∈ spaces, Reader.isSpace c = true) :
    Json.read reader (write l w ++ spaces) = .ok a := by
  have hstops : Stops Number.continues spaces := by
    intro c hc
    have hspace := hspaces c (List.mem_of_mem_head? hc)
    simp only [Reader.isSpace, Bool.or_eq_true, beq_iff_eq] at hspace
    rcases hspace with ((rfl | rfl) | rfl) | rfl <;> rfl
  have hskip : Reader.skipSpaces spaces = [] := List.dropWhile_eq_nil_iff.mpr hspaces
  rw [Json.read, write, h.read_self l 0 hstops]
  simp [hskip]

theorem Reads.read_write (h : Reads reader w a) (l : Layout) :
    Json.read reader (write l w) = .ok a := by
  simpa using h.read_write_append l (List.forall_mem_nil _)

end Typings.Json
