import Typings.Text.Basic

/-! # Lines -/

namespace Typings.Text

/-- The lines of a text. A line ends at a line feed, which takes a carriage return right before it
along; what follows the last line feed is a line of its own unless it is empty. -/
def lines : Text → List Text
  | [] => []
  | '\n' :: r => [] :: lines r
  | '\r' :: '\n' :: r => [] :: lines r
  | c :: r => consFirst c (lines r)

end Typings.Text
