import KeyScript.Blake2b
import KeyScript.Plan.Encoding

/-!
The digest of a plan: the hash of its binary form. Scripts with the same steps
have the same digest.
-/

namespace KeyScript

def shortened (digest : Text) : Text :=
  digest.take 12

namespace Plan

def digest (p : Plan) : Text :=
  (blake2b256 p.encode).hex

def shortDigest (p : Plan) : Text :=
  shortened p.digest

end Plan
end KeyScript
