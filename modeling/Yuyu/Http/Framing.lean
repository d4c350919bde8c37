import Yuyu.Foundation.Lines
import Yuyu.Http.Dump

/-!
# The framing of printed messages

The text of `dump` is read back line by line, as the grammars of both parsers do: a line ends at a
line feed with or without a carriage return. Both functions print their own lines beside those of an
arbitrary map, from which they leave out only `connection`.
-/

namespace Yuyu.Http

open Foundation List
open Foundation.Decimal (decimal)
open Foundation.Lines (scan ended)

variable {entry e : Bytes × Bytes}

section Counting

variable {websocket close : Bool} {headers : MapType} {body text : Bytes}
  {others : List (Bytes × Bytes)}

end Counting

/-! ## Messages whose parts fit on their lines -/

namespace FullRequest

variable {req : FullRequest}

end FullRequest

namespace FullResponse

variable {rsp : FullResponse}

end FullResponse

end Yuyu.Http
