import Typings.Declaration.Json
import Typings.Output
import Typings.Proofs.Json.Reads

/-!
# Declarations read back from JSON

Constants, declarations and skipped lines are read back from what is written for them.  A list of
members that was left out is read as the empty list.
-/

namespace Typings

open Json

theorem Constant.reads (c : Constant) : Reads Constant.reader c.writer c :=
  Reads.object Constant.shape
    (.cons rfl rfl (.at (.text c.name) _) (.cons rfl rfl (.at (.text c.value) _) .nil)) rfl

namespace Declaration

theorem reads (d : Declaration) : Reads Declaration.reader d.writer d := by
  obtain ⟨kind, name, _ | ⟨c, cs⟩⟩ := d
  · exact Reads.object Declaration.shape
      (.cons rfl rfl (.at (.text kind) _) (.cons rfl rfl (.at (.text name) _) .nil)) rfl
  · exact Reads.object Declaration.shape
      (.cons rfl rfl (.at (.text kind) _) (.cons rfl rfl (.at (.text name) _)
        (.cons rfl rfl (.at (.list_map Constant.reads (c :: cs)) _) .nil))) rfl

end Declaration

theorem SkippedLine.reads (x : SkippedLine) (h : x.number < Number.bound) :
    Reads SkippedLine.reader x.writer x :=
  Reads.object SkippedLine.shape
    (.cons rfl rfl (.at (.count h) _) (.cons rfl rfl (.at (.text x.text) _) .nil)) rfl

/-- A document in JSON is read as the declarations that it was made of. -/
theorem Format.read_render_json (banner : Option Text) (ds : List Declaration) :
    Json.read (Reader.list Declaration.reader) (Format.json.render banner ds) = .ok ds :=
  (Reads.list_map Declaration.reads ds).read_write_append .indented (List.all_eq_true.mp rfl)

end Typings
