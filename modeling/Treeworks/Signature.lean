import Treeworks.Table
import Treeworks.Text.Quoted

/-! Parameter lists: what can be read off them, and how a call's arguments are matched to them. -/
namespace Treeworks

/-- How an argument reaches a parameter. -/
inductive Passing
  | positional
  | ordinary
  | rest
  | keyword
  | keywordRest
  deriving DecidableEq, Repr, Inhabited

/-- A parameter; an optional one has a default. -/
structure Parameter where
  name : String
  passing : Passing
  optional : Bool
  deriving DecidableEq, Repr, Inhabited

/-- Whether a parameter takes one argument by position. -/
def Parameter.byPosition (p : Parameter) : Bool :=
  p.passing = .positional || p.passing = .ordinary

/-- A parameter list: positional, ordinary, rest, keyword and keyword-rest parameters in this order. -/
abbrev Signature := List Parameter

/-- What a parameter holds in a call. -/
inductive Bound (α : Type)
  | one (value : α)
  | many (values : List α)
  | named (values : Table α)
  | default
  deriving Inhabited

/-- Why arguments do not fit a parameter list. `excess` holds the least and the greatest number of
arguments by position, the number given, and how many were given by keyword. -/
inductive Misfit
  | unknown (keyword : String)
  | repeated (name : String)
  | excess (least most given named : Nat)
  | absent (names : List String)
  | unnamed (names : List String)
  deriving DecidableEq, Repr, Inhabited

namespace Misfit

/-- Names in quotes, as a phrase. -/
def phrase : List String → String
  | [] => ""
  | [a] => Text.quoted a
  | [a, b] => Text.quoted a ++ " and " ++ Text.quoted b
  | names =>
    ", ".intercalate (names.dropLast.map Text.quoted) ++ ", and " ++ Text.quoted (names.getLast?.getD "")

/-- The ending of a noun that is counted. -/
def plural (n : Nat) : String := if n = 1 then "" else "s"

/-- The sentence about missing arguments of a sort. -/
def lacking (sort : String) (names : List String) : String :=
  "missing " ++ toString names.length ++ " required " ++ sort ++ " argument" ++ plural names.length ++
    ": " ++ phrase names

/-- What is said of a misfit after the name of the function. -/
def text : Misfit → String
  | .unknown keyword => "got an unexpected keyword argument " ++ "'" ++ keyword ++ "'"
  | .repeated name => "got multiple values for argument " ++ "'" ++ name ++ "'"
  | .excess least most given named =>
    let range := if least = most then toString most else "from " ++ toString least ++ " to " ++ toString most
    let ending := if least = most then plural most else "s"
    let extra := if named = 0 then "" else
      " positional argument" ++ plural given ++ " (and " ++ toString named ++ " keyword-only argument" ++
        plural named ++ ")"
    "takes " ++ range ++ " positional argument" ++ ending ++ " but " ++ toString given ++ extra ++
      (if given = 1 && named = 0 then " was given" else " were given")
  | .absent names => lacking "positional" names
  | .unnamed names => lacking "keyword-only" names

end Misfit

namespace Signature
variable {α : Type}

/-- Reads one token per parameter: a name, with `=` if optional; `/` after the positional ones;
`*` before the keyword ones, or `*name` for the rest; `**name` for the keyword rest. -/
def ofTokens (tokens : List String) : Signature :=
  let step (acc : Signature × Bool) (token : String) : Signature × Bool :=
    let (sig, afterStar) := acc
    let cs := token.toList
    match cs with
    | ['/'] => (sig.map fun p => if p.passing = .ordinary then { p with passing := .positional } else p, afterStar)
    | ['*'] => (sig, true)
    | '*' :: '*' :: name => (sig ++ [⟨String.ofList name, .keywordRest, true⟩], afterStar)
    | '*' :: name => (sig ++ [⟨String.ofList name, .rest, true⟩], true)
    | _ =>
      let passing := if afterStar then Passing.keyword else .ordinary
      if cs.getLast? = some '=' then (sig ++ [⟨String.ofList cs.dropLast, passing, true⟩], afterStar)
      else (sig ++ [⟨token, passing, false⟩], afterStar)
  (tokens.foldl step ([], false)).1

/-- The number of parameters that take an argument by position. -/
def accepted (sig : Signature) : Nat := sig.countP Parameter.byPosition

/-- The number of those without a default. -/
def required (sig : Signature) : Nat := sig.countP fun p => p.byPosition && !p.optional

/-- Whether further arguments by position are collected. -/
def hasRest (sig : Signature) : Bool := sig.any (·.passing = .rest)

/-- Whether there is a keyword parameter of a name. -/
def hasKeyword (sig : Signature) (name : String) : Bool :=
  sig.any fun p => p.passing = .keyword && p.name = name

/-- What is left when leading arguments are fixed; none if there are too many of them. -/
def afterLeading : Nat → Signature → Option Signature
  | 0, sig => some sig
  | _ + 1, [] => none
  | n + 1, p :: sig =>
    if p.byPosition then afterLeading n sig
    else if p.passing = .rest then some (p :: sig)
    else none

/-- The parameters that are left when the first argument is given by a method's own object; none if
no parameter takes it. -/
def afterFirst : Signature → Option Signature
  | [] => none
  | p :: rest =>
    if p.byPosition then some rest
    else if p.passing = .rest then some (p :: rest)
    else none

/-- Whether an argument can be passed under a name. -/
def acceptsKeyword (sig : Signature) (name : String) : Bool :=
  sig.any fun p => (p.passing = .ordinary || p.passing = .keyword) && p.name = name

/-- The names of the parameters that take an argument by position, with whether each may be left out
of a call with the given keywords. -/
def positions (sig : Signature) (keywords : List String) : List (String × Bool) :=
  (sig.filter Parameter.byPosition).map fun p =>
    (p.name, p.optional || (p.passing = .ordinary && keywords.contains p.name))

/-- The keyword parameters that a call with the given keywords leaves out. -/
def missingKeywords (sig : Signature) (keywords : List String) : List String :=
  (sig.filter fun p => p.passing = .keyword && !p.optional && !keywords.contains p.name).map (·.name)

/-- What is wrong with the keywords of a call: one that no parameter takes, or one whose parameter is
filled by position. -/
def keywordMisfit? (sig : Signature) (given : Nat) (keywords : List String) : Option Misfit :=
  let collects := sig.any (·.passing = .keywordRest)
  match keywords.find? fun k => !collects && !sig.acceptsKeyword k with
  | some k => some (.unknown k)
  | none =>
    (((sig.filter Parameter.byPosition).take given).find? fun p =>
      p.passing = .ordinary && keywords.contains p.name).map (.repeated ·.name)

/-- The first reason why a call with so many arguments and with the given keywords does not fit:
its keywords, too many arguments, missing ones, missing keywords. -/
def misfit? (sig : Signature) (given : Nat) (keywords : List String) : Option Misfit :=
  let absent := (((sig.positions keywords).drop given).filter (!·.2)).map (·.1)
  let unnamed := sig.missingKeywords keywords
  (sig.keywordMisfit? given keywords).or <|
    if sig.accepted < given && !sig.hasRest then
      some (.excess sig.required sig.accepted given (keywords.filter sig.hasKeyword).length)
    else if !absent.isEmpty then some (.absent absent)
    else if !unnamed.isEmpty then some (.unnamed unnamed)
    else none

/-- What is left when arguments are fixed by keyword, which no longer have to be given: from the first such
parameter on that also takes an argument by position, all others are passed by keyword alone. -/
def afterKeywords (keywords : List String) : Signature → Signature
  | [] => []
  | p :: sig =>
    let named := (p.passing = .ordinary || p.passing = .keyword) && keywords.contains p.name
    let p := if named then { p with optional := true } else p
    if named && p.passing = .ordinary then
      ((p :: sig).filter (·.passing ≠ .rest)).map fun q =>
        ⟨q.name, if q.passing = .ordinary then .keyword else q.passing, q.optional || keywords.contains q.name⟩
    else p :: afterKeywords keywords sig

/-- What is left when arguments are fixed by position and by keyword; none if they do not fit. -/
def afterFixed (leading : Nat) (keywords : List String) (sig : Signature) : Option Signature :=
  match sig.keywordMisfit? leading keywords with
  | some _ => none
  | none => (sig.afterLeading leading).map (afterKeywords keywords)

/-- What each parameter holds in a call whose arguments fit. The strays are the keyword arguments
that no parameter names. -/
def fill (keywords strays : Table α) : Signature → List α → List (String × Bound α)
  | [], _ => []
  | p :: sig, args =>
    match p.passing, args with
    | .positional, a :: args | .ordinary, a :: args => (p.name, .one a) :: fill keywords strays sig args
    | .positional, [] => (p.name, .default) :: fill keywords strays sig []
    | .ordinary, [] => (p.name, named p.name) :: fill keywords strays sig []
    | .rest, args => (p.name, .many args) :: fill keywords strays sig []
    | .keyword, args => (p.name, named p.name) :: fill keywords strays sig args
    | .keywordRest, args => (p.name, .named strays) :: fill keywords strays sig args
where
  named (name : String) : Bound α := ((keywords.get? name).map .one).getD .default

/-- What each parameter holds in a call, or why the arguments do not fit. -/
def bind (sig : Signature) (args : List α) (keywords : Table α) :
    Except Misfit (List (String × Bound α)) :=
  match sig.misfit? args.length keywords.keys with
  | some misfit => .error misfit
  | none => .ok (fill keywords (keywords.filter fun e => !sig.acceptsKeyword e.1) sig args)

end Signature
end Treeworks
