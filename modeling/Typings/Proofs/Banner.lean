import Typings.JobFile
import Typings.Proofs.Block
import Typings.Proofs.Text.Line

/-!
# Banners

A banner stands behind two slashes in front of a document.  The slashes are in front of its first
line alone (`lines_renderWith`), so it stays a comment if, and only if, each further line of it
starts with two slashes of its own (`staysComment_renderWith_iff`).
-/

namespace Typings

open Text

/-- A comment line starts with two slashes. -/
def IsCommentLine (line : Text) : Prop := "//".toList <+: line

instance (line : Text) : Decidable (IsCommentLine line) := inferInstanceAs (Decidable (_ <+: _))

namespace Document

variable {b s : Text} {ds : List Declaration}

/-- `s` is the document by itself, or the document behind a header of comment lines and one blank
line. -/
def StaysComment (document s : Text) : Prop :=
  s = document ∨ ∃ header, s = header ++ "\n\n".toList ++ document ∧ header ≠ [] ∧
    ∀ line ∈ Text.lines header, IsCommentLine line

/-- The comment that a banner is made into. -/
def bannerHeader (b : Text) : Text := "// ".toList ++ trim b

theorem renderWith_of_blank (hb : isBlankText b = true) (ds : List Declaration) :
    renderWith (some b) ds = render ds := if_pos hb

theorem renderWith_of_not_blank (hb : isBlankText b = false) (ds : List Declaration) :
    renderWith (some b) ds = bannerHeader b ++ "\n\n".toList ++ render ds :=
  if_neg (Bool.not_eq_true _ ▸ hb)

/-- Blank banners are left out when a request is made, and once more when a document is. -/
theorem renderWith_filled (banner : Option Text) (ds : List Declaration) :
    renderWith (filled banner) ds = renderWith banner ds := by
  cases banner with
  | none => rfl
  | some b =>
    change renderWith (if !isBlankText b then some b else none) ds = renderWith (some b) ds
    cases hb : isBlankText b with
    | true => exact (renderWith_of_blank hb ds).symm
    | false => rfl

theorem render_of_request {settings : EnumsSettings} {r : EnumsRequest}
    (hr : settings.request = .ok r) (hf : settings.format = .declarations)
    (ds : List Declaration) : r.format.render r.banner ds = renderWith settings.banner ds := by
  rw [EnumsSettings.request] at hr
  split at hr
  · cases hr
  · obtain rfl := Except.ok.inj hr
    dsimp only
    rw [hf, Format.render, renderWith_filled]

/-! ## Lines -/

/-- The slashes are part of the first line of the comment, and the other lines are those of the
banner. -/
theorem lines_bannerHeader (hb : isBlankText b = false) : ∃ first rest,
    Text.lines (trim b) = first :: rest ∧
      Text.lines (bannerHeader b) = ("// ".toList ++ first) :: rest := by
  have hhead : (trim b).head? ≠ some '\n' := fun h ↦ by
    have := stops_trim b '\n' h
    cases this
  obtain ⟨first, rest, h⟩ := List.exists_cons_of_ne_nil (lines_ne_nil (trim_ne_nil hb))
  exact ⟨first, rest, h, lines_append (by decide) hhead h⟩

/-- The lines of a document with a banner are those of the banner, a blank line, and those of the
document without it. -/
theorem lines_renderWith (hb : isBlankText b = false) (ds : List Declaration) :
    Text.lines (renderWith (some b) ds) =
      Text.lines (bannerHeader b) ++ [] :: Text.lines (render ds) := by
  have hlast : ∀ c ∈ (bannerHeader b).getLast?, c ≠ '\n' ∧ c ≠ '\r' := by
    intro c hc
    rw [bannerHeader, List.getLast?_append_of_ne_nil _ (trim_ne_nil hb)] at hc
    have hblank := trimEnd_eq_self_iff.mp (trimEnd_trim b) c hc
    constructor
    · rintro rfl
      cases hblank
    · rintro rfl
      cases hblank
  have hend : bannerHeader b ++ "\n\n".toList ++ render ds =
      bannerHeader b ++ '\n' :: '\n' :: render ds := by simp
  have hne : bannerHeader b ≠ [] := List.cons_ne_nil _ _
  rw [renderWith_of_not_blank hb, hend, lines_append_newline_of_last hne hlast]
  rfl

/-! ## Comments -/

theorem staysComment_iff_of_not_blank (hb : isBlankText b = false) (ds : List Declaration) :
    StaysComment (render ds) (renderWith (some b) ds) ↔
      ∀ line ∈ Text.lines (bannerHeader b), IsCommentLine line := by
  rw [renderWith_of_not_blank hb]
  constructor
  · rintro (h | ⟨header, h, -, hlines⟩)
    · -- The header is not empty.
      have hlength := congrArg List.length h
      simp [bannerHeader] at hlength
      omega
    · rw [List.append_assoc, List.append_assoc] at h
      rwa [List.append_cancel_right h]
  · intro hlines
    exact .inr ⟨bannerHeader b, rfl, List.cons_ne_nil _ _, hlines⟩

/-- A banner stays a comment if, and only if, each of its lines behind the first starts with two
slashes, blanks at either end of the banner aside.  Its first line stands behind two slashes in any
case, and the others as they are.  A blank banner is none, and the banner of a request is that of
the settings it is made from. -/
theorem staysComment_renderWith_iff (banner : Option Text) (ds : List Declaration) :
    (StaysComment (render ds) (renderWith banner ds) ↔
      ∀ b ∈ banner, ∀ line ∈ (Text.lines (trim b)).tail, IsCommentLine line) ∧
    ((∀ b ∈ banner, isBlankText b = true) → renderWith banner ds = render ds) ∧
    (∀ b ∈ banner, isBlankText b = false → ∃ first rest, Text.lines (trim b) = first :: rest ∧
      Text.lines (renderWith banner ds) =
        ("// ".toList ++ first) :: (rest ++ [] :: Text.lines (render ds))) ∧
    ∀ (settings : EnumsSettings) (r : EnumsRequest), settings.request = .ok r →
      settings.format = .declarations → settings.banner = banner →
        r.format.render r.banner ds = renderWith banner ds := by
  refine ⟨?_, ?_, ?_, ?_⟩
  · cases banner with
    | none => simp [StaysComment, renderWith]
    | some b =>
      simp only [Option.mem_some_iff, forall_eq']
      cases hb : isBlankText b with
      | true => simp [StaysComment, renderWith_of_blank hb, trim_eq_nil hb, Text.lines]
      | false =>
        obtain ⟨first, rest, hlines, hheader⟩ := lines_bannerHeader hb
        have hfirst : IsCommentLine ("// ".toList ++ first) := ⟨' ' :: first, by simp⟩
        rw [staysComment_iff_of_not_blank hb, hheader, hlines, List.forall_mem_cons, List.tail_cons]
        exact and_iff_right hfirst
  · cases banner with
    | none => exact fun _ ↦ rfl
    | some b => exact fun h ↦ renderWith_of_blank (h b rfl) ds
  · rintro b rfl hb
    obtain ⟨first, rest, hlines, hheader⟩ := lines_bannerHeader hb
    exact ⟨first, rest, hlines, by rw [lines_renderWith hb, hheader, List.cons_append]⟩
  · rintro settings r hr hf rfl
    exact render_of_request hr hf ds

/-- A banner whose second line is made a comment by hand. -/
theorem staysComment_renderWith_slashes :
    let banner := some " Enums\r\n// for mods\n".toList
    let ds : List Declaration := [⟨Declaration.enumKind, "A".toList, []⟩]
    let r : EnumsRequest := { input := "enums.lua".toList, banner }
    EnumsSettings.request { input := "enums.lua".toList, banner } = .ok r ∧
      r.format.render r.banner ds = renderWith banner ds ∧
      StaysComment (render ds) (renderWith banner ds) ∧
      ∃ first rest, Text.lines (renderWith banner ds) =
        ("// ".toList ++ first) :: (rest ++ [] :: Text.lines (render ds)) := by
  intro banner ds r
  have hr : EnumsSettings.request { input := "enums.lua".toList, banner } = .ok r := by decide
  have hlines : ∀ b ∈ banner, ∀ line ∈ (Text.lines (trim b)).tail, IsCommentLine line := by
    intro b hb
    cases Option.mem_some_iff.mp hb
    decide
  obtain ⟨hcomment, -, hshape, hrequest⟩ := staysComment_renderWith_iff banner ds
  obtain ⟨first, rest, -, hdocument⟩ := hshape _ rfl (by decide)
  exact ⟨hr, hrequest _ r hr rfl rfl, hcomment.mpr hlines, first, rest, hdocument⟩

-- The second line of a banner may come out as part of the document.
theorem exists_not_staysComment :
    ¬ ∀ (contents : Text) (r : EnumsRequest) (ds : List Declaration),
      JobFile.parse [] contents = .ok [.enums r] → r.format = .declarations →
        StaysComment (render ds) (r.format.render r.banner ds) := by
  intro hall
  have hparse : JobFile.parse []
      "[enums]\ninput = \"enums.lua\"\nbanner = \"Enums\\nfor mods\"\n".toList =
        .ok [.enums { input := "enums.lua".toList, banner := some "Enums\nfor mods".toList }] := by
    decide +kernel
  have hcomment := hall _ _ [⟨Declaration.enumKind, "A".toList, []⟩] hparse rfl
  have hblank : isBlankText "Enums\nfor mods".toList = false := rfl
  have hlines := (staysComment_iff_of_not_blank hblank _).mp hcomment
  revert hlines
  decide

end Document

end Typings
