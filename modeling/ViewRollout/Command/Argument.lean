import ViewRollout.Command.Switch

/-!
# Arguments

The arguments of a command line, told apart into switches, their values and plain words. A switch
is spelled in full after two dashes or as a letter after one, letters may be put together, and a
value stands in the same argument or in the next. Two dashes alone make everything after them
words; one dash alone is a word.
-/

namespace ViewRollout.Command

inductive Argument where
  | flag (switch : Switch)
  | value (switch : Switch) (text : String)
  | apart (switch : Switch) (text : String)
  | word (text : String)
  | command (name : String) (rest : List String)
  | wrong
  deriving DecidableEq, Repr

def isSwitch (argument : String) : Bool :=
  match argument.toList with
  | '-' :: _ :: _ => true
  | _ => false

/-- The switches in letters put together, and the last of them when its value is still to come. -/
def letters (level : Level) : List Char → List Argument × Option Switch
  | [] => ([], none)
  | c :: rest =>
    match level.short? c with
    | none => ([.wrong], none)
    | some switch =>
      if switch.arity = .none then
        let (more, pending) := letters level rest
        (.flag switch :: more, pending)
      else
        match rest with
        | [] => ([], some switch)
        | '=' :: text => ([.value switch (String.ofList text)], none)
        | text => ([.value switch (String.ofList text)], none)

def spelled (level : Level) (text : List Char) : List Argument × Option Switch :=
  match level.long? (String.ofList (text.takeWhile (· != '='))), text.dropWhile (· != '=') with
  | none, _ => ([.wrong], none)
  | some switch, [] =>
    if switch.arity = .none then ([.flag switch], none) else ([], some switch)
  | some switch, _ :: value =>
    if switch.arity = .none then ([.wrong], none)
    else ([.value switch (String.ofList value)], none)

def switches? (level : Level) (argument : String) : Option (List Argument × Option Switch) :=
  match argument.toList with
  | '-' :: '-' :: text => some (spelled level text)
  | '-' :: c :: rest => some (letters level (c :: rest))
  | _ => none

/-- What the arguments are at a level. While a switch that takes many values is open, words are its
values. -/
def readArguments (level : Level) (opened : Option Switch) : List String → List Argument
  | [] => []
  | argument :: rest =>
    if argument = "--" then rest.map .word
    else
      match switches? level argument with
      | none =>
        match opened with
        | some switch => .value switch argument :: readArguments level opened rest
        | none =>
          if level = .top then [.command argument rest]
          else .word argument :: readArguments level none rest
      | some (arguments, none) => arguments ++ readArguments level none rest
      | some (arguments, some switch) =>
        arguments ++
          match rest with
          | [] => [.wrong]
          | value :: others =>
            if isSwitch value then [.wrong]
            else if switch.arity = .many then readArguments level (some switch) (value :: others)
            else .apart switch value :: readArguments level none others

end ViewRollout.Command
