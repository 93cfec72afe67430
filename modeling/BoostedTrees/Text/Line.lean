namespace BoostedTrees.Text

structure LineScan where
  done : List (List Char) := []
  pending : List Char := []

def endedLine : List Char → List Char
  | '\r' :: rest => rest.reverse
  | rest => rest.reverse

def LineScan.step (scan : LineScan) (c : Char) : LineScan :=
  if c = '\n' then { done := endedLine scan.pending :: scan.done }
  else { scan with pending := c :: scan.pending }

def LineScan.finish (scan : LineScan) : List (List Char) :=
  match scan.pending with
  | [] => scan.done.reverse
  | pending => (pending.reverse :: scan.done).reverse

def splitLines (s : List Char) : List (List Char) := (s.foldl LineScan.step {}).finish

def lines (text : String) : List String := (splitLines text.toList).map String.ofList

def unlines (ls : List String) : String := String.join (ls.map (· ++ "\n"))

end BoostedTrees.Text
