import Typings.Page
import Typings.Proofs.Block
import Typings.Proofs.Page.Row

/-!
# Declarations sent in portions

A consumer of a page is handed its records one by one (`Page.scan_eq`), and for a sink it makes no
difference in what portions declarations are sent (`Sink.foldl_writeAll`).  So a document that is
written while a page is read, or in any other portions, is the one that is rendered in one go
(`Sink.writeAll_in_portions`).
-/

namespace Typings

theorem Page.scan_eq {σ : Type} (o : Options) (take : σ → Declaration → σ) (consumer : σ)
    (markup : Text) : scan o take consumer markup =
      ((parse o markup).records.foldl take consumer, (parse o markup).rowsSeen) := by
  rw [scan, Row.Scan.feed_eq_foldl_run]
  rfl

/-- Reading a page is collecting its records as their rows close. -/
theorem Page.scan_collect (o : Options) (markup : Text) :
    scan o (fun ds d ↦ ds ++ [d]) [] markup = ((parse o markup).records, (parse o markup).rowsSeen) := by
  rw [scan_eq, Sink.foldl_append_singleton, List.nil_append]

namespace Sink

theorem writeAll_document (ds : List Declaration) :
    writeAll ({} : Document) ds = ⟨Document.render ds, ds.length⟩ := by
  rw [Document.render, writeAll_eq_foldl, Document.foldl_emit, List.length_map]

/-- A document that gets each record of a page as its row closes is the one that is rendered from
all of them.  The same holds of any portions of declarations, which leave every sink as their blocks
in order do, and a list with just these blocks.  A document is the blocks it was sent, whatever
they are, with one line feed between them. -/
theorem writeAll_in_portions :
    (∀ (o : Page.Options) (markup : Text),
      Page.scan o (fun doc d ↦ writeAll doc [d]) ({} : Document) markup =
        (⟨Document.render (Page.parse o markup).records, (Page.parse o markup).records.length⟩,
          (Page.parse o markup).rowsSeen)) ∧
      (∀ portions : List (List Declaration),
        portions.foldl writeAll ({} : Document) =
            ⟨Document.render portions.flatten, portions.flatten.length⟩ ∧
          portions.foldl writeAll ([] : List Text) = portions.flatten.map Block.render ∧
          ∀ (σ : Type) [Sink σ] (sink : σ), portions.foldl writeAll sink =
            (portions.flatten.map Block.render).foldl emit sink) ∧
      ∀ blocks : List Text, blocks.foldl emit ({} : Document) =
        ⟨List.intercalate ['\n'] blocks, blocks.length⟩ := by
  refine ⟨fun o markup ↦ ?_, fun portions ↦ ⟨?_, ?_, fun σ _ sink ↦ ?_⟩, Document.foldl_emit⟩
  · rw [Page.scan_eq, ← writeAll_document]
    rfl
  · rw [foldl_writeAll, writeAll_document]
  · rw [foldl_writeAll, writeAll_eq_foldl]
    exact foldl_append_singleton [] _
  · rw [foldl_writeAll, writeAll_eq_foldl]

/-- The second portion is empty. -/
example :
    let d : Declaration := ⟨Declaration.enumKind, "A".toList, [⟨"X".toList, "1".toList⟩]⟩
    ([[d], [], [d]].foldl writeAll ({} : Document)).text =
      "declare enum A \x7b\n  X = 1,\n\x7d\n\ndeclare enum A \x7b\n  X = 1,\n\x7d\n".toList := by
  decide

end Sink

end Typings
