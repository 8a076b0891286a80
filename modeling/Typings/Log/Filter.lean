import Typings.Log

/-! # Log filters

A filter is a list of directives, such as `info` or `target=debug`, with commas between them. -/

namespace Typings.Log.Filter

/-- Splits a text at each comma. -/
def directives : Text → List Text
  | [] => [[]]
  | c :: r => if c == ',' then [] :: directives r else Text.consFirst c (directives r)

/-- The level that a directive lets through, which may be none. -/
def level? (directive : Text) : Option (Option Level) :=
  let word := Text.toLower (Text.trim (directive.reverse.takeWhile (· != '=')).reverse)
  if word = "off".toList then some none
  else if word = "error".toList then some (some .error)
  else if word = "warn".toList then some (some .warn)
  else if word = "info".toList then some (some .info)
  else if word = "debug".toList ∨ word = "trace".toList then some (some .debug)
  else none

/-- The level from which on events are shown, as the most generous directive says. A filter with a
directive that cannot be read shows what `info` does. -/
def threshold (filter : Text) : Option Level :=
  match (directives filter).mapM level? with
  | none => some .info
  | some levels =>
    (levels.filterMap id).foldl
      (fun best l => if best.all (l.rank < ·.rank) then some l else best) none

/-- Whether an event is shown from a level on. -/
def shows (threshold : Option Level) (e : Event) : Bool :=
  threshold.any (·.rank ≤ e.level.rank)

end Typings.Log.Filter
