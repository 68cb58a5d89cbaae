import Mathlib.Data.List.Basic

namespace Graph

variable {V : Type}

structure Route (V : Type) where
  src : V
  via : List V
  dst : V
deriving DecidableEq, Repr

namespace Route

def path (r : Route V) : List V := r.src :: (r.via ++ [r.dst])

def rev (r : Route V) : Route V := { src := r.dst, via := r.via.reverse, dst := r.src }

def concat (r s : Route V) : Route V :=
  { src := r.src, via := r.via ++ s.src :: s.via, dst := s.dst }

def cut (pre : List V) (a : V) (r : Route V) : Route V := { src := r.src, via := pre, dst := a }

def rest (a : V) (post : List V) (r : Route V) : Route V := { src := a, via := post, dst := r.dst }

@[simp] theorem path_length (r : Route V) : r.path.length = r.via.length + 2 := by
  simp [path]

theorem path_injective {r s : Route V} (h : r.path = s.path) : r = s := by
  obtain ⟨rs, rv, rd⟩ := r
  obtain ⟨ss, sv, sd⟩ := s
  simp only [path, List.cons.injEq] at h
  obtain ⟨hsrc, htail⟩ := h
  obtain ⟨hvia, hdst⟩ := List.append_inj' htail rfl
  simp only [List.cons.injEq, and_true] at hdst
  rw [hsrc, hvia, hdst]

@[simp] theorem path_rev (r : Route V) : r.rev.path = r.path.reverse := by
  simp [path, rev]

@[simp] theorem rev_rev (r : Route V) : r.rev.rev = r := by
  simp [rev]

theorem path_concat_joined {r s : Route V} (h : r.dst = s.src) :
    (r.concat s).path = r.path ++ s.path.tail := by
  simp [path, concat, h]

theorem rev_concat {r s : Route V} (h : r.dst = s.src) :
    (r.concat s).rev = s.rev.concat r.rev := by
  simp [rev, concat, h]

theorem path_cut {r : Route V} {pre post : List V} {a : V} (h : r.via = pre ++ a :: post) :
    r.path = (r.cut pre a).path ++ (post ++ [r.dst]) := by
  simp [path, cut, h]

theorem concat_cut_rest {r : Route V} {pre post : List V} {a : V} (h : r.via = pre ++ a :: post) :
    (r.cut pre a).concat (r.rest a post) = r := by
  obtain ⟨rs, rv, rd⟩ := r
  simp only [cut, rest, concat] at h ⊢
  rw [h]

end Route

end Graph
