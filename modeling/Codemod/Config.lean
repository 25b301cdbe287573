import Codemod.Migration.CallSite
import Codemod.Store.Persist
/-!
# Settings

What the program goes by unless it is told otherwise.
-/

namespace Codemod

/-- The version of the program. -/
def version : String := "0.1.0"

/-- What a run of the program goes by. -/
structure Config where
  /-- Where compiled rules are kept. -/
  ruleDirectory : String
  /-- How often each of its files is read before loading fails. -/
  maxReadAttempts : Nat
  suffixes : Suffixes
  stubbing : StubbingConventions
  /-- Compiled rules leave code alone that contains a comment, unless they say
  otherwise. -/
  rejectComments : Bool
  deriving DecidableEq, Inhabited

namespace Config

/-- What it goes by unless it is told otherwise. -/
def standard : Config where
  ruleDirectory := "./refit-rules"
  maxReadAttempts := 3
  suffixes := .standard
  stubbing := .standard
  rejectComments := true

end Config

end Codemod
