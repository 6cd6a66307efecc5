import Comprehend.Chain.Build
import Comprehend.Chain.Lower
import Comprehend.Clause.Parser
import Comprehend.Syntax.Printer

/-! The way from notation text to program text: clauses, chain, output. -/

namespace Comprehend

structure Settings where
  strict : Bool
  maxClauses : Int
  maxOutput : Int
  style : ChainStyle
  reader : OperandReader

def Settings.standard : Settings :=
  ⟨false, Chain.defaultMaxClauses, Layout.defaultLimit, ⟨.es2019, false⟩, .script⟩

structure Explanation where
  code : String
  comprehension : Comprehension
  chain : Node

def Comprehension.chain (settings : Settings) (c : Comprehension) : Except Fault Node :=
  Chain.build settings.reader settings.maxClauses c.yield c.clauses

/-- One comprehension's program text with the results on the way to it. -/
def explain (settings : Settings) (raw : String) : Noted Explanation := do
  let comprehension ← Comprehension.parse settings.strict raw
  let chain ← comprehension.chain settings
  let code ← printChain settings.maxOutput settings.style chain
  return ⟨code, comprehension, chain⟩

def transform (settings : Settings) (raw : String) : Noted String := do
  return (← explain settings raw).code

end Comprehend
