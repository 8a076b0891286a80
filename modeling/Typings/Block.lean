import Typings.Declaration
import Typings.Log

/-! # Declaration blocks and where they go -/

namespace Typings

namespace Block

/-- The line of a block that gives one constant. -/
def memberLine (c : Constant) : Text :=
  "  ".toList ++ c.name ++ " = ".toList ++ c.value ++ ",\n".toList

/-- The block of a declaration, which ends with one line feed behind its closing brace. -/
def render (d : Declaration) : Text :=
  "declare ".toList ++ d.kind ++ " ".toList ++ d.name ++ " \x7b\n".toList ++
    d.members.flatMap memberLine ++ "\x7d\n".toList

end Block

/-- A sink takes rendered blocks one after the other. -/
class Sink (σ : Type) where
  emit : σ → Text → σ

namespace Sink

/-- Sends the block of each declaration to a sink, in order. -/
def writeAll {σ : Type} [Sink σ] (sink : σ) (ds : List Declaration) : σ :=
  ds.foldl (fun s d => emit s (Block.render d)) sink

end Sink

/-- A list takes every block as it is. -/
instance : Sink (List Text) where
  emit blocks block := blocks ++ [block]

/-- A document is its blocks, joined by one line feed, and their number. -/
structure Document where
  text : Text := []
  blocks : Nat := 0
deriving DecidableEq, Repr

namespace Document

/-- Adds a block, behind a line feed unless it is the first. -/
def push (d : Document) (block : Text) : Document :=
  ⟨d.text ++ (if d.blocks = 0 then block else '\n' :: block), d.blocks + 1⟩

instance : Sink Document := ⟨push⟩

/-- The document of all blocks. -/
def render (ds : List Declaration) : Text := (Sink.writeAll ({} : Document) ds).text

/-- The document under a comment line with a banner, unless the banner is blank. -/
def renderWith (banner : Option Text) (ds : List Declaration) : Text :=
  match banner with
  | some b =>
    if Text.isBlankText b then render ds
    else "// ".toList ++ Text.trim b ++ "\n\n".toList ++ render ds
  | none => render ds

end Document

/-- A log of blocks: each is an entry of its own, tagged with where it came from. -/
structure BlockLog where
  source : Option Text := none
  blocks : Nat := 0
  events : List Log.Event := []
deriving DecidableEq, Repr

namespace BlockLog

/-- The log entry for a block. -/
def event (source : Option Text) (block : Text) : Log.Event :=
  ⟨.info, '\n' :: Text.trimEnd block, [("source", .text (source.getD "-".toList))]⟩

def push (l : BlockLog) (block : Text) : BlockLog :=
  { l with blocks := l.blocks + 1, events := l.events ++ [event l.source block] }

instance : Sink BlockLog := ⟨push⟩

end BlockLog

end Typings
