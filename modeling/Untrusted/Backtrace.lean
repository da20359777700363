import Untrusted.Number.Rounding
import Untrusted.Operation
import Untrusted.Span

/-!
# Backtraces

A failure starts with the frame of the operation that failed and collects a frame for each scope it
leaves. A backtrace that keeps only its root drops the others. Walking goes from the outermost frame
in; frames marked as children belong to the frame beneath them and are visited right after it.
-/

namespace Untrusted

structure Frame where
  operation : String
  expected : Option String
  /-- Whether the frame is grouped with the one beneath it. -/
  isChild : Bool
  deriving DecidableEq, Repr

namespace Frame

def named (operation : String) : Frame := ⟨operation, none, false⟩

def ofOperation (op : Operation) : Frame := named op.description

def asChild (f : Frame) : Frame := { f with isChild := true }

end Frame

/-- The frame of the operation that failed, which knows where. -/
structure RootFrame where
  op : Operation
  expected : String
  span : Span
  deriving DecidableEq, Repr

namespace RootFrame

def frame (r : RootFrame) : Frame := ⟨r.op.description, some r.expected, false⟩

def withSpan (r : RootFrame) (span : Span) : RootFrame := { r with span := span }

end RootFrame

structure Backtrace where
  /-- Whether frames other than the root are kept. -/
  full : Bool
  root : RootFrame
  /-- The frames of the scopes left, the outermost first. -/
  outer : List Frame
  deriving DecidableEq, Repr

namespace Backtrace

def ofRoot (full : Bool) (root : RootFrame) : Backtrace := ⟨full, root, []⟩

def push (b : Backtrace) (f : Frame) : Backtrace :=
  if b.full then { b with outer := f :: b.outer } else b

def frames (b : Backtrace) : List Frame := b.outer ++ [b.root.frame]

def count (b : Backtrace) : Nat := b.frames.length

/-- Frames with their depths, given the depth of the last one that is no child and the children
seen since. -/
def visitsFrom (depth : Nat) (children : List Frame) : List Frame → List (Nat × Frame)
  | [] => []
  | f :: rest =>
    if f.isChild then visitsFrom depth (children ++ [f]) rest
    else (depth + 1, f) :: children.map (fun c => (depth + 1, c)) ++ visitsFrom (depth + 1) [] rest

/-- The frames in the order of a walk, each with its depth; the outermost has depth 1. -/
def visits (b : Backtrace) : List (Nat × Frame) := visitsFrom 0 [] b.frames

/-! ## Walking

A walk keeps two cursors: one goes over all frames, the other over the children. The children passed
by the first since the last frame that is none are the ones due next at the second. -/

/-- Visits the first `due` of `children` at one depth, and says whether to go on. -/
def walkChildren {σ : Type} (visit : σ → Nat → Frame → σ × Bool) (depth : Nat) :
    (due : Nat) → (children : List Frame) → σ → σ × Bool
  | due + 1, f :: rest, s =>
    match visit s depth f with
    | (s', true) => walkChildren visit depth due rest s'
    | (s', false) => (s', false)
  | _, _, s => (s, true)

/-- Walks over frames, given the depth of the last one that is no child, how many children were
passed since, and the children that were not visited yet. -/
def walkFrom {σ : Type} (visit : σ → Nat → Frame → σ × Bool) (depth due : Nat)
    (children : List Frame) : List Frame → σ → σ × Bool
  | [], s => (s, true)
  | f :: rest, s =>
    if f.isChild then walkFrom visit depth (due + 1) children rest s
    else
      match visit s (depth + 1) f with
      | (s', false) => (s', false)
      | (s', true) =>
        match walkChildren visit (depth + 1) due children s' with
        | (s'', false) => (s'', false)
        | (s'', true) => walkFrom visit (depth + 1) 0 (children.drop due) rest s''

/-- Walks over the frames; the answer is false if the walk was stopped. -/
def walk {σ : Type} (b : Backtrace) (visit : σ → Nat → Frame → σ × Bool) (s : σ) : σ × Bool :=
  walkFrom visit 0 0 (b.frames.filter (·.isChild)) b.frames s

def firstVisits (b : Backtrace) (stop : Option Number) : List (Nat × Frame) × Bool :=
  b.walk (fun seen depth f =>
    let seen := seen ++ [(depth, f)]
    (seen, stop.all (Number.ofNat seen.length).lt)) []

end Backtrace
end Untrusted
