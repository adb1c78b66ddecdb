/-! The Jaro similarity of two texts, in double precision. Two characters match when they
are equal, at most half the longer length less one apart, and each is matched once, the
first free one from the left; with `m` matches and `t` half the number of matched pairs that
stand in a different order, the similarity is `(m / |a| + m / |b| + (m - t) / m) / 3`, and
zero without matches. Two empty texts are equal, one empty text is unlike any other. -/
namespace ItemFlow.Text

/-- Match the characters of `a` from index `i` on against `b`, marking matched places. -/
def matchFrom (a b : Array Char) (range : Nat) : Nat → Array Bool × Array Bool → Array Bool × Array Bool
  | 0, flags => flags
  | n + 1, (fa, fb) =>
    let i := a.size - (n + 1)
    let lo := i - range
    let hi := min b.size (i + range + 1)
    let c := a.getD i ' '
    let j? := (List.range' lo (hi - lo)).find? fun j => b.getD j ' ' == c && !fb.getD j true
    match j? with
    | some j => matchFrom a b range n (fa.modify i fun _ => true, fb.modify j fun _ => true)
    | none => matchFrom a b range n (fa, fb)

def matched (s : Array Char) (flags : Array Bool) : List Char :=
  (s.toList.zip flags.toList).filterMap fun (c, f) => if f then some c else none

def jaro (a b : String) : Float :=
  let a := a.toList.toArray
  let b := b.toList.toArray
  if a.size = 0 && b.size = 0 then 1.0
  else if a.size = 0 || b.size = 0 then 0.0
  else
    let range := max a.size b.size / 2 - 1
    let (fa, fb) := matchFrom a b range a.size (Array.replicate a.size false, Array.replicate b.size false)
    let ma := matched a fa
    let mb := matched b fb
    let m := ma.length
    let t := ((ma.zip mb).filter fun (x, y) => x != y).length / 2
    if m = 0 then 0.0
    else (m.toFloat / a.size.toFloat + m.toFloat / b.size.toFloat + (m - t).toFloat / m.toFloat) / 3.0

end ItemFlow.Text
