import Yuyu.Http.LengthBody

/-!
# Content lengths that are not lengths

The value of `content-length` passes through `lexical_cast`, whose exceptions become the default 0,
then through a conversion to `int64_t` and a test of the sign, and `body.resize` throws if no string
can be so long.
-/

namespace Yuyu.Http

open Foundation
open Foundation.Strtol (sign value isDigit)
open Foundation.Decimal (readUnsigned)

section Requests

variable {cfg : Config} {memory : HttpParser} {sock rest : Socket} {parser : HttpRequestParser}
  {pending v : Bytes}

end Requests

end Yuyu.Http
