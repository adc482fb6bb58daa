import LibZmq.Security.Metadata

/-!
# The metadata codec

What `parse_metadata` accepts, and what `add_basic_properties` writes (`mechanism.cpp`).

* `Concatenation ps bytes`: the bytes are the complete properties `ps`, one after the other.
* `CutShort o bytes`: the bytes end right after the name, or right before the value, of a property,
  and those before it are acceptable. The loop of `parse_metadata` is left with no bytes left then,
  which is taken for success.
* `metadata_codec`: apart from that, exactly the concatenations are accepted.
-/

namespace LibZmq

open Properties List Option
open Wire (ascii getUint32)

/-! ## Reading -/

namespace Mechanism

variable {o : Options} {zap : Bool} {m m' : Mechanism} {name value bytes : Bytes}
  {ps : Properties}

/-- The properties of the peer, or those of the ZAP handler. -/
def recorded (m : Mechanism) (zap : Bool) : Properties :=
  if zap then m.zapProperties else m.zmtpProperties

section
variable {length : UInt8} {size : Bytes} (hname : name.length = length.toNat)
include hname

end

end Mechanism

/-! ## Writing -/

namespace Options

end Options

/-! ## The codec -/

namespace Mechanism

/-- A socket that the application adds something to. -/
def sampleOptions (appMetadata : AppMetadata) : Options :=
  { type := .dealer, routingId := [1, 2], recvRoutingId := true, appMetadata, zapDomain := []
    zapEnforceDomain := false }

end Mechanism
end LibZmq
