/-! # Routes

The addresses of the service, and where a request is led.
-/

namespace ContractBench.Service

/-- What the service offers. -/
inductive Route where
  | compile | flatten | versions | categories | arguments | display | submit | standing | root
  | health
deriving DecidableEq, Repr

namespace Route

def all : List Route :=
  [compile, flatten, versions, categories, arguments, display, submit, standing, root, health]

def path : Route → String
  | compile => "/compiler/compile"
  | flatten => "/compiler/flatten"
  | versions => "/compiler/versions"
  | categories => "/abi/categorize"
  | arguments => "/abi/arguments"
  | display => "/abi/format-result"
  | submit => "/verification/submit"
  | standing => "/verification/status"
  | root => "/"
  | health => "/health"

def method : Route → String
  | compile | flatten | categories | arguments | display | submit => "POST"
  | versions | standing | root | health => "GET"

def at? (path : String) : Option Route := all.find? fun route => route.path == path

theorem mem_all (route : Route) : route ∈ all := by cases route <;> decide

theorem at?_path (route : Route) : at? route.path = some route := by cases route <;> decide

/-- A path with a slash at its end if it has none, and without if it has some. -/
def otherForm (path : String) : String :=
  if path.toList.getLast? = some '/' then
    String.ofList (path.toList.reverse.dropWhile (· == '/')).reverse
  else
    path ++ "/"

/-- The route for a path. One that is found only with or without a slash at the end is taken as
well. -/
def for? (path : String) : Option Route :=
  match at? path with
  | some route => some route
  | none => if path = "/" then none else at? (otherForm path)

end Route

end ContractBench.Service
