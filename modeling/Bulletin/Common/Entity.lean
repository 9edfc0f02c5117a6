import Mathlib.Data.List.Basic

/-! # Entity tokens

A token is `kind:value`. Its prefix decides whether a shared token may link two
clusters at all, and how strongly.
-/

namespace Bulletin

inductive LinkStrength where
  | strong
  | weak
deriving DecidableEq, Repr

def startsWith (s lead : String) : Bool := lead.toList.isPrefixOf s.toList

def endsWith (s tail : String) : Bool := tail.toList.isSuffixOf s.toList

def isBotLogin (login : String) : Bool := endsWith login "[bot]"

/-- How a shared entity links, or `none` when it is too coarse to link on. -/
def linkStrength (entity : String) : Option LinkStrength :=
  if startsWith entity "cve:" || startsWith entity "url:" then some .strong
  else if startsWith entity "user:" then
    if isBotLogin (String.ofList (entity.toList.drop 5)) then none else some .weak
  else if startsWith entity "repo:" || startsWith entity "place:" || startsWith entity "org:" ||
      startsWith entity "person:" then some .weak
  else none

def splitNamespace (token : String) : Option (String × String) :=
  let ns := token.toList.takeWhile (· ≠ ':')
  if ns.length < token.toList.length then
    some (String.ofList ns, String.ofList (token.toList.drop (ns.length + 1)))
  else none

example : linkStrength "user:renovate[bot]" = none := by decide

end Bulletin
