/-
# QueryCost.Session -- a configuration that changes while copies of it are in use

A session holds one configuration that can be changed step by step, and what was
bound to it so far.  A middleware is bound to the whole configuration, a function to
its rules alone, and it only analyzes queries.  Either keeps the configuration that
was current when it was bound; later changes do not reach it.
-/
import QueryCost.Verdict

namespace QueryCost

open QueryCost.Analysis

set_option autoImplicit false

/-- A configuration in use. -/
inductive Binding
  /-- Analyzes queries and judges bodies. -/
  | middleware (c : Config)
  /-- Analyzes queries. -/
  | function (c : Config)

namespace Binding

def config : Binding → Config
  | .middleware c => c
  | .function c => c

/-- The function of some rules; settings have no part in it. -/
def ofRules (r : Rules Float) : Binding :=
  .function ⟨.default, r⟩

end Binding

structure Session where
  current : Config
  /-- What was bound, in the order in which it was bound. -/
  bound : List Binding

namespace Session

def start (c : Config) : Session :=
  ⟨c, []⟩

inductive Step
  | setFieldCost (name : String) (cost : Float)
  | setCostCeiling (cost : Float)
  | setDepthCeiling (depth : Nat)
  | show
  | validate
  | bind
  | bindFunction
  | analyze (query : String)
  | analyzeBound (index : Nat) (query : String)
  | judgeBound (index : Nat) (body : ByteArray)
  | showBound (index : Nat)

inductive Answer
  /-- How many field costs there are. -/
  | fieldCosts (n : Nat)
  | costCeiling (cost : Float)
  | depthCeiling (depth : Nat)
  | config (c : Config)
  | problem (p : Option Config.Problem)
  | bound (index : Nat)
  | analysis (a : Except Refusal (Report Float))
  | verdict (v : Verdict)
  /-- Nothing that can answer is bound under the number that was asked for. -/
  | unbound

/-- Change the rules of the current configuration. -/
def changeRules (s : Session) (f : Rules Float → Rules Float) : Session :=
  { s with current := { s.current with rules := f s.current.rules } }

/-- Bind something under the next number. -/
def keep (s : Session) (b : Binding) : Session × Answer :=
  ({ s with bound := s.bound ++ [b] }, .bound s.bound.length)

/-- Ask what was bound under a number. -/
def askBound (s : Session) (index : Nat) (f : Binding → Answer) : Answer :=
  match s.bound[index]? with
  | some b => f b
  | none => .unbound

/-- Ask the middleware that was bound under a number. -/
def askMiddleware (s : Session) (index : Nat) (f : Config → Answer) : Answer :=
  s.askBound index fun
    | .middleware c => f c
    | .function _ => .unbound

def step (s : Session) : Step → Session × Answer
  | .setFieldCost name cost =>
      let s := s.changeRules (·.setFieldCost name cost)
      (s, .fieldCosts s.current.rules.tariff.fieldCosts.size)
  | .setCostCeiling cost => (s.changeRules (·.setCostCeiling cost), .costCeiling cost)
  | .setDepthCeiling depth => (s.changeRules (·.setDepthCeiling depth), .depthCeiling depth)
  | .show => (s, .config s.current)
  | .validate => (s, .problem s.current.problem?)
  | .bind => s.keep (.middleware s.current)
  | .bindFunction => s.keep (.ofRules s.current.rules)
  | .analyze query => (s, .analysis (s.current.analyze query))
  | .analyzeBound index query => (s, s.askBound index fun b => .analysis (b.config.analyze query))
  | .judgeBound index body => (s, s.askMiddleware index fun c => .verdict (c.judge body))
  | .showBound index => (s, s.askMiddleware index .config)

/-- Take the steps one after the other; answers the session at the end and each answer. -/
def run (s : Session) : List Step → Session × List Answer
  | [] => (s, [])
  | step :: rest =>
      let (s, answer) := s.step step
      let (s, answers) := s.run rest
      (s, answer :: answers)

end Session

end QueryCost
