import Aegis.Core.Profile
import Aegis.Lib.Json

/-! Browser launch requests, the rendered policy bundle and its safety check. -/
namespace Aegis

inductive RenderMode where
  | virtioGpu
  | software
  deriving DecidableEq

structure BrowserLaunchRequest where
  session : SessionId
  profile : ProfileId
  userDataDir : String
  fingerprint : FingerprintPolicy
  permissions : PermissionPolicy
  proxyEndpoint : String
  renderMode : RenderMode
  production : Bool

/-- The part of a rendered bundle its safety check reads. -/
structure BackendPolicyBundle where
  backend : BrowserBackendId
  commandLine : List String
  deriving DecidableEq

namespace BackendPolicyBundle

def forbidden : List String :=
  ["--no-sandbox", "--disable-web-security", "--disable-site-isolation-trials"]

/-- The error an argument is refused with, if it is. -/
def checkArg (production : Bool) (arg : String) : Option Error :=
  if forbidden.any fun bad => arg = bad || (bad ++ "=").toList.isPrefixOf arg.toList then
    some (.config ("forbidden browser flag: " ++ arg))
  else if production && "--remote-debugging".toList.isPrefixOf arg.toList then
    some (.config "remote debugging must not be enabled in production builds")
  else none

/-- The command line contains no forbidden flag. -/
def assertSafe (b : BackendPolicyBundle) (production : Bool) : Result Unit :=
  match b.commandLine.findSome? (checkArg production) with
  | some e => .error e
  | none => .ok ()

/-- A safe command line has no argument that is refused. -/
theorem assertSafe_eq_ok {b : BackendPolicyBundle} {production : Bool} :
    b.assertSafe production = .ok () ↔
      ∀ arg ∈ b.commandLine, checkArg production arg = none := by
  unfold assertSafe
  cases h : b.commandLine.findSome? (checkArg production) with
  | none => simpa using h
  | some e =>
    obtain ⟨arg, hm, he⟩ := List.exists_of_findSome?_eq_some h
    simp only [reduceCtorEq, false_iff, not_forall]
    exact ⟨arg, hm, by simp [he]⟩

/-- The check refuses with a configuration error. -/
theorem assertSafe_error {b : BackendPolicyBundle} {production : Bool} {e : Error}
    (h : b.assertSafe production = .error e) : e.failureClass = .configuration := by
  unfold assertSafe at h
  split at h
  next e' he =>
    cases h
    obtain ⟨arg, -, harg⟩ := List.exists_of_findSome?_eq_some he
    unfold checkArg at harg
    split_ifs at harg <;> cases harg <;> rfl
  · cases h

end BackendPolicyBundle

/-- A bundle with what is written for the browser besides its command line: managed policies by
file and preferences by name, both in the order of their keys. -/
structure RenderedBundle extends BackendPolicyBundle where
  managedPolicies : List (String × Json.Value)
  preferences : List (String × Json.Value)

/-- A handle to a running browser process. -/
structure BrowserHandle where
  session : SessionId
  backend : BrowserBackendId
  processToken : String
  deriving DecidableEq

end Aegis
