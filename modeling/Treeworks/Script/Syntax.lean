import Treeworks.Datum
import Treeworks.Value
import Treeworks.Signature

/-! Scripts: expressions for values, the actions that user functions are made of, and operations. -/
namespace Treeworks

/-- A step of a path: a scalar as the name of a field or attribute, as an index, or as any other key; or
a list or an object, which can be neither. -/
inductive Key
  | scalar (v : Value)
  | compound (type : String)
  deriving DecidableEq, Inhabited

/-- A path into a value. -/
abbrev Path := List Key

/-- How a diagnostic is reported against a file. -/
inductive Reporting
  | message
  | warn
  | fail
  deriving DecidableEq, Inhabited

/-- What kind of callable a script function is. -/
inductive FunctionKind
  | plain
  | object
  | unreadable
  deriving DecidableEq, Inhabited

mutual
/-- How a value is written; decoding it allocates the containers anew. -/
inductive Expr
  | null
  | bool (b : Bool)
  | int (n : Int)
  | float (x : Float)
  | str (s : String)
  | list (items : List Expr)
  | dict (fields : List (String × Expr))
  | ref (id : String)
  | function (spec : FunctionSpec)
  | callback (name : String) (acts : List Act)
  | record (fields : List (String × Expr))
  | view (fields : List (String × Expr))
  | point (line column : Expr)
  | set (items : List Expr)
  | tuple (items : List Expr)
  | future (id : String)
  | coroutine (acts : List Act)
  | awaitable (acts : List Act)

/-- A function: its parameters, its body, and how it is made. -/
inductive FunctionSpec
  | mk (name : String) (signature : Signature) (kind : FunctionKind) (asynchronous quiet : Bool)
      (leading : Option (List Expr)) (id : Option String) (body : List Act)

/-- An action of a function body. -/
inductive Act
  | give (value : Expr)
  | raise (name : String)
  | note (value : Expr)
  | assign (name : String) (path : Path) (value : Expr)
  | push (name : String) (path : Path) (value : Expr)
  | increment (name : String) (key : Key)
  | call (name : String) (args : List Expr)
  | hold (name id : String)
  | report (how : Reporting) (name : String) (reason : Expr) (position : Expr) (id : Option String)
  | use (name : String) (step : Expr) (args : List Expr)
  | run (name : String) (args : List Expr)
  | wait (id : String)
  | sleep (turns : Nat)
end

instance : Inhabited Expr := ⟨.null⟩
instance : Inhabited Act := ⟨.note .null⟩

/-- The error kinds that a script can construct. -/
inductive ErrorKind
  | value | runtime | type | halt
  | engine | parse | transform | compile | config | expectedNode
  deriving DecidableEq, Inhabited

/-- How the result of an instance of a script's parser or compiler comes about when its actions
give none. -/
inductive Production
  | lines | echo | slot | count | text | tags
  deriving DecidableEq, Inhabited

/-- A parser or compiler written in a script. -/
structure WorkerSpec where
  id : String
  name : String
  production : Production
  acts : List Act
  asynchronous : Bool
  attrs : List (String × Expr)
  refusal : Option String
  deriving Inhabited

/-- An error to construct. Only some kinds take what is optional. -/
structure ErrorSpec where
  id : String
  kind : ErrorKind
  message : Expr
  category : Option String
  context : Option (List (String × Expr))
  cause : Option String
  option : Option Expr
  node : Expr
  deriving Inhabited

/-- A time in seconds; a whole number can be too great for one. -/
inductive Seconds
  | known (x : Float)
  | tooGreat
  deriving Inhabited

/-- A timed span to construct. An id that is given is kept, whatever it is. -/
structure SpanSpec where
  id : String
  step : Expr
  spanId : Option Expr
  parentId : Expr
  startedAt : Option Seconds
  endedAt : Option Seconds
  metrics : List (String × Expr)
  error : Option String
  added : List (String × Expr)
  setError : Option String
  stop : Bool
  deriving Inhabited

/-- What is done with the logging context. -/
inductive ContextAction
  | get | set | bind | clear | merge | event
  | push (id : Option String)
  | restore (token : String)
  deriving Inhabited

/-- An operation of a script. -/
inductive Op
  | val (id : String) (value : Expr)
  | show (of : String)
  | get (of : String) (path : Path)
  | set (of : String) (path : Path) (value : Expr)
  | append (of : String) (path : Path) (value : Expr)
  | same (a : String) (pathA : Path) (b : String) (pathB : Path)
  | isNode (value : Expr)
  | error (spec : ErrorSpec)
  | describe (of : String)
  | withContext (of : String) (values : List (String × Expr))
  | file (id : String) (options : Option Expr)
  | coerce (id : Option String) (value : Expr)
  | bag (of : String) (key : Expr)
  | setBag (of : String) (key name value : Expr)
  | hasBag (of : String) (key : Expr)
  | path (of : String)
  | move (of : String) (filename directory extension : Expr)
  | failed (of : String)
  | str (of : String)
  | repr (of : String)
  | report (how : Reporting) (of : String) (reason position : Expr) (id : Option String)
  | diagnostic (id : Option String) (reason position file : Expr) (fatal : Option Expr)
  | type (id name : String) (module : Expr) (bases : List String) (attrs : List (String × Expr)) (doc : Expr)
  | derive (id of : String)
  | typeInfo (of : String)
  | ware (id : String) (context : Expr) (attaching : Bool)
  | use (on : String) (step : Expr) (args : List Expr) (repeated : Nat)
  | attach (on : String) (attacher : Expr) (options : List Expr)
  | steps (on : String)
  | step (callee : Expr)
  | bail (args : List Expr)
  | run (on : String) (args : List Expr)
  | call (of : String) (args : List Expr)
  | settle (future : String) (value : Expr) (error : Option String)
  | cancel (future : String)
  | parser (spec : WorkerSpec)
  | compiler (spec : WorkerSpec)
  | family (id : String) (name parser compiler data : Expr)
  | subfamily (id of name : String) (attrs : List (String × Expr))
  | new (id : Option String) (of : String) (args : List Expr)
  | default (id : Option String) (of : String)
  | ensure (id : Option String) (of : String) (args : List Expr)
  | create (on : String) (parser : Bool) (args : List Expr) (id : Option String)
  | stringify (on : String) (args : List Expr)
  | parse (on : String) (args : List Expr) (id task : Option String)
  | process (on : String) (args : List Expr) (fileId task : Option String)
  | context (action : ContextAction) (values base : List (String × Expr))
  | scoped (values : List (String × Expr)) (ops : List Op) (raised : Option String)
  | logStep (event : Expr) (logStart : Option Bool) (level : Option Expr) (values metrics : List (String × Expr))
      (ops : List Op) (raised id : Option String)
  | timed (step : Option Expr) (ops : List Op) (raised id : Option String)
  | span (of : String)
  | timing (spec : SpanSpec)
  | spanId
  | emit (logger : String) (level event : Expr) (values : List (String × Expr))
  | filter (families level : Expr) (events : List (Expr × List (String × Expr)))
  | env (vars : List (String × Datum)) (reset : Bool) (dotenv : Option (List (String × String)))
  | settings
  | configure (level format debugProcessors : Option Expr) (force : Bool)
  | configured

instance : Inhabited Op := ⟨.settings⟩

/-- A script: its operations, whether they run inside an event loop, and whether logs are shown. -/
structure Script where
  ops : List Op
  loop : Bool
  logs : Bool
  deriving Inhabited

end Treeworks
