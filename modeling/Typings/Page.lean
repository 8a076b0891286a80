import Typings.Log
import Typings.Markup.Token
import Typings.Page.Row

/-! # Reference pages -/

namespace Typings

/-- What a reference page amounts to. -/
structure Page where
  records : List Declaration
  /-- The number of member rows opened, those left open included. -/
  rowsSeen : Nat
  /-- Whether the page ended in an open member row. -/
  endsInRow : Bool
deriving DecidableEq, Repr

namespace Page

def ofEvents (o : Options) (es : List Markup.Event) : Page :=
  let (records, last) := Row.Scan.run o {} es
  ⟨records, last.opened, last.inRow⟩

/-- Reads a page. Every text is one. -/
def parse (o : Options) (markup : Text) : Page := ofEvents o (Markup.events markup)

/-- Reads a page and hands each declaration to a consumer as soon as its row closes. Gives what has
become of the consumer, and the number of member rows opened. -/
def scan {σ : Type} (o : Options) (take : σ → Declaration → σ) (consumer : σ) (markup : Text) :
    σ × Nat :=
  let (consumer, last) := Row.Scan.feed o take consumer {} (Markup.events markup)
  (consumer, last.opened)

/-- The log entry for a member row that closes. -/
def rowEvent (d : Declaration) : Log.Event :=
  ⟨.debug, "scanned member row".toList,
    [("kind", .text d.kind), ("name", .text d.name), ("members", .count d.memberCount)]⟩

/-- The log entry for a page that ends in an open member row. -/
def unclosedEvent (o : Options) : Log.Event :=
  ⟨.debug, "page ended inside an unclosed member row".toList, [("source_kind", .text o.sourceKind)]⟩

/-- What the log says about reading a page, with further entries after that for each record. -/
def log (o : Options) (perRecord : Declaration → List Log.Event) (p : Page) : List Log.Event :=
  p.records.flatMap (fun d => rowEvent d :: perRecord d) ++
    if p.endsInRow then [unclosedEvent o] else []

end Page

end Typings
