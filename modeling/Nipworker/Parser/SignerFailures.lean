/-
A signer that fails on an encrypted event (`parser/kind4.rs`, `parser/kind7374.rs`,
`parser/kind7375.rs`, `parser/kind7376.rs`, `parser/kind17375.rs`, `parser/nip51.rs`).

Each parser makes one call to decrypt the content.  When the call fails, most parsers
return an error of the signer, which may be tried again; some go on without the
private content.
-/
import Nipworker.Parser.PreparedEvents

namespace Nipworker

namespace Parser

variable {D : Type} {p : Parser D} {signer : DynSigner} {event : SignedEvent}

end Parser

end Nipworker
