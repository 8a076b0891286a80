import Typings.Job.Report
import Typings.Job.Request
import Typings.Job.Source
import Typings.Page

/-! # Declarations from reference pages -/

namespace Typings.DocsRequest

variable {m : Type → Type} [Monad m] [Host m]

/-- The extension of the pages asked for, without the dots in front. -/
def pageExtension (r : DocsRequest) : Text := r.extension.dropWhile (· == '.')

/-- Whether a file of this name is a page asked for. -/
def wants (r : DocsRequest) (name : Text) : Bool :=
  (match Path.extension? name with
    | some e => Text.eqIgnoringCase e r.pageExtension
    | none => false) && r.exclude != some name

/-- The names of the pages among the entries of a directory, sorted by code points. -/
def pageNames (r : DocsRequest) (entries : List (Text × Bool)) : List Text :=
  ((entries.filter fun (name, isFile) => isFile && r.wants name).map Prod.fst).mergeSort
    Text.le

/-- The log entry for a directory without pages. -/
def nothingEvent (r : DocsRequest) : Log.Event :=
  ⟨.warn, "no documentation pages found".toList,
    [("dir", .text r.dir), ("extension", .text r.pageExtension)]⟩

/-- The log entry for a page that was read. -/
def pageEvent (path : Path) (p : Page) : Log.Event :=
  ⟨.debug, "scanned documentation page".toList,
    [("page", .text path), ("rows", .count p.rowsSeen), ("records", .count p.records.length)]⟩

/-- The log entry for a scan that reached its end. -/
def scanEvent (r : DocsRequest) (pages : List Page) : Log.Event :=
  let records := pages.flatMap Page.records
  ⟨.info, "scanned documentation pages".toList,
    [("dir", .text r.dir), ("pages", .count pages.length), ("records", .count records.length),
      ("members", .count (Declaration.totalMembers records))]⟩

/-- What a streaming scan logs of a record besides its row. -/
def streamed (r : DocsRequest) (name : Text) (d : Declaration) : List Log.Event :=
  match r.mode with
  | .stream => [BlockLog.event (some name) (Block.render d)]
  | .concatenate => []

/-- Reads pages in order. -/
def scanPages (r : DocsRequest) : List Text → ExceptT Job.Failure m (List Page)
  | [] => return []
  | name :: names => do
    let path := Path.join r.dir name
    let markup ← Job.load path
    let page := Page.parse {} markup
    Host.logAll (Page.log {} (r.streamed name) page) (m := m)
    Host.log (pageEvent path page) (m := m)
    let pages ← r.scanPages names
    return page :: pages

/-- Reads the pages and writes their declarations to the output. Without one they are handed back,
unless they were streamed. -/
def run (r : DocsRequest) : ExceptT Job.Failure m DocsReport := do
  if r.pageExtension.isEmpty then
    throw .noExtension
  let entries ← match ← (Host.list r.dir : m _) with
    | .ok entries => pure entries
    | .error e => throw (.load r.dir e)
  let names := r.pageNames entries
  if names.isEmpty then
    Host.log r.nothingEvent (m := m)
  let pages ← r.scanPages names
  let records := pages.flatMap Page.records
  Host.log (r.scanEvent pages) (m := m)
  let document := r.format.render none records
  if let some path := r.output then
    Job.save path document
  return {
    pagesScanned := pages.length
    rowsSeen := pages.foldr (fun p n => p.rowsSeen + n) 0
    recordCount := records.length
    memberCount := Declaration.totalMembers records
    output := r.output
    rendered := if r.output.isSome ∨ r.mode = .stream then none else some document }

end Typings.DocsRequest
