import BoostedTrees.Json.Token

namespace BoostedTrees.Json

inductive Value where
  | null
  | bool (value : Bool)
  | number (text : List Char)
  | string (text : Option String)
  | list (items : List Value)
  | object (members : List (Option String × Value))

inductive Frame where
  | list (items : List Value)
  | object (members : List (Option String × Value))
  | member (members : List (Option String × Value)) (key : Option String)

inductive Expected where
  | value
  | valueOrClose
  | key
  | keyOrClose
  | colon
  | commaOrClose
  | nothing
  deriving DecidableEq, Repr

structure Reader where
  expected : Expected := .value
  frames : List Frame := []
  result : Option Value := none

def Reader.complete (frames : List Frame) (v : Value) : Reader :=
  match frames with
  | [] => ⟨.nothing, [], some v⟩
  | .list items :: rest => ⟨.commaOrClose, .list (v :: items) :: rest, none⟩
  | .member members key :: rest => ⟨.commaOrClose, .object ((key, v) :: members) :: rest, none⟩
  | .object members :: rest => ⟨.commaOrClose, .object members :: rest, none⟩

def Reader.startValue (frames : List Frame) : Token → Option Reader
  | .null => some (.complete frames .null)
  | .bool b => some (.complete frames (.bool b))
  | .number s => some (.complete frames (.number s))
  | .string s => some (.complete frames (.string s))
  | .openList => some ⟨.valueOrClose, .list [] :: frames, none⟩
  | .openObject => some ⟨.keyOrClose, .object [] :: frames, none⟩
  | _ => none

def Reader.close : List Frame → Token → Option Reader
  | .list items :: rest, .closeList => some (.complete rest (.list items.reverse))
  | .object members :: rest, .closeObject => some (.complete rest (.object members.reverse))
  | _, _ => none

def Reader.next : List Frame → Option Reader
  | .list items :: rest => some ⟨.value, .list items :: rest, none⟩
  | .object members :: rest => some ⟨.key, .object members :: rest, none⟩
  | _ => none

def Reader.startMember : List Frame → Token → Option Reader
  | .object members :: rest, .string key => some ⟨.colon, .member members key :: rest, none⟩
  | _, _ => none

def Reader.step (r : Reader) (t : Token) : Option Reader :=
  match r.expected with
  | .value => Reader.startValue r.frames t
  | .valueOrClose =>
      if t = .closeList then Reader.close r.frames t else Reader.startValue r.frames t
  | .key => Reader.startMember r.frames t
  | .keyOrClose =>
      if t = .closeObject then Reader.close r.frames t else Reader.startMember r.frames t
  | .colon => if t = .colon then some ⟨.value, r.frames, none⟩ else none
  | .commaOrClose => if t = .comma then Reader.next r.frames else Reader.close r.frames t
  | .nothing => none

def value? (s : List Char) : Option Value :=
  ((tokens? s).bind fun ts => ts.foldlM Reader.step {}).bind Reader.result

end BoostedTrees.Json
