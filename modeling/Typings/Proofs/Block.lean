import Typings.Block
import Typings.Proofs.Text.Basic

/-!
# Blocks and documents

A document is its blocks with a line feed between them (`Document.render_eq_intercalate`), and a
block in the log has lost the line feed at its end and nothing else (`BlockLog.event_render`).
-/

namespace Typings

variable {d : Declaration} {ds : List Declaration}

namespace Block

/-- A block up to its last line. -/
def opening (d : Declaration) : Text :=
  "declare ".toList ++ d.kind ++ " ".toList ++ d.name ++ " \x7b\n".toList ++
    d.members.flatMap memberLine

/-- A block without the line feed at its end. -/
def body (d : Declaration) : Text := opening d ++ ['\x7d']

theorem render_eq (d : Declaration) : render d = body d ++ ['\n'] := by
  have hrender : render d = opening d ++ "\x7d\n".toList := rfl
  have hend : "\x7d\n".toList = ['\x7d', '\n'] := by simp
  rw [hrender, hend, body, List.append_assoc, List.singleton_append]

theorem trimEnd_render (d : Declaration) : Text.trimEnd (render d) = body d := by
  have hblank : Text.isBlankText ['\n'] = true := rfl
  rw [render_eq, Text.trimEnd_append_blank hblank, body, Text.trimEnd_concat (by decide)]

end Block

namespace Sink

variable {σ : Type} [Sink σ]

/-- A sink is sent the blocks of the declarations, and sees nothing else of them. -/
theorem writeAll_eq_foldl (sink : σ) (ds : List Declaration) :
    writeAll sink ds = (ds.map Block.render).foldl emit sink :=
  List.foldl_map.symm

/-- Portions of declarations, empty ones among them, are sent as the declarations of all of them. -/
theorem foldl_writeAll (sink : σ) (portions : List (List Declaration)) :
    portions.foldl writeAll sink = writeAll sink portions.flatten :=
  List.foldl_flatten.symm

/-- A list that takes things one by one has them all at its end. -/
theorem foldl_append_singleton {α : Type} (xs ys : List α) :
    ys.foldl (fun zs y ↦ zs ++ [y]) xs = xs ++ ys := by
  rw [List.foldl_append_eq_append, ← List.flatMap_def, List.flatMap_singleton']

end Sink

namespace Document

/-- Behind a first block each block stands behind a line feed. -/
theorem foldl_push (doc : Document) (hdoc : doc.blocks ≠ 0) (blocks : List Text) :
    blocks.foldl push doc = ⟨doc.text ++ blocks.flatMap ('\n' :: ·), doc.blocks + blocks.length⟩ := by
  induction blocks generalizing doc with
  | nil => simp
  | cons b blocks ih =>
    have hpush : doc.push b = ⟨doc.text ++ '\n' :: b, doc.blocks + 1⟩ := by
      rw [push, if_neg hdoc]
    rw [List.foldl_cons, hpush, ih _ (Nat.succ_ne_zero _)]
    simp [Nat.add_comm, Nat.add_left_comm]

theorem intercalate_cons (b : Text) (bs : List Text) :
    List.intercalate ['\n'] (b :: bs) = b ++ bs.flatMap ('\n' :: ·) := by
  induction bs generalizing b with
  | nil => simp
  | cons b' bs ih => simp [List.intercalate_cons_cons, ih]

/-- A document is the blocks it was sent with a line feed between them, and counts them. -/
theorem foldl_emit (blocks : List Text) :
    blocks.foldl Sink.emit ({} : Document) = ⟨List.intercalate ['\n'] blocks, blocks.length⟩ := by
  cases blocks with
  | nil => rfl
  | cons b blocks =>
    rw [intercalate_cons, List.length_cons, Nat.add_comm]
    exact foldl_push (push {} b) Nat.one_ne_zero blocks

/-- A document is its blocks with a line feed between them. -/
theorem render_eq_intercalate (ds : List Declaration) :
    render ds = List.intercalate ['\n'] (ds.map Block.render) := by
  rw [render, Sink.writeAll_eq_foldl, foldl_emit]

end Document

namespace BlockLog

theorem event_render (name : Text) (d : Declaration) :
    event (some name) (Block.render d) =
      ⟨.info, '\n' :: Block.body d, [("source", .text name)]⟩ := by
  rw [event, Block.trimEnd_render]
  rfl

end BlockLog

end Typings
