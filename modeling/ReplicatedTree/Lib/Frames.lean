import Mathlib.Data.List.Basic
import Mathlib.Tactic.Common

/-!
# Bodies with their lengths in front

A stream of frames: each body follows a header of fixed width, which encodes its length. Where
the stream is cut after a header, the header is the one of the next body (`header_of_stream`),
and where it is cut after as many cells as the header says, these are the body
(`body_of_stream`). So frames can be read piece by piece without looking ahead.
-/

namespace ReplicatedTree
namespace Frames

variable {β : Type*}

/-- A way to write lengths, in a fixed number of cells. -/
structure Header (β : Type*) where
  width : ℕ
  encode : ℕ → List β
  width_pos : 0 < width
  length_encode : ∀ n, (encode n).length = width

variable (H : Header β)

def frame (body : List β) : List β := H.encode body.length ++ body

def stream (bodies : List (List β)) : List β := bodies.flatMap (frame H)

@[simp] theorem stream_nil : stream H [] = [] := rfl

@[simp] theorem stream_cons (body : List β) (bodies : List (List β)) :
    stream H (body :: bodies) = frame H body ++ stream H bodies := List.flatMap_cons

theorem stream_append (as bs : List (List β)) : stream H (as ++ bs) = stream H as ++ stream H bs :=
  List.flatMap_append

variable {H}

/-- A stream that is not at its end has a next frame. -/
theorem exists_of_stream {bodies : List (List β)} {cells rest : List β}
    (h : stream H bodies = cells ++ rest) (hne : cells ≠ []) :
    ∃ body bodies', bodies = body :: bodies' := by
  cases bodies with
  | nil =>
    rw [stream_nil] at h
    exact absurd (List.append_eq_nil_iff.1 h.symm).1 hne
  | cons body bodies => exact ⟨body, bodies, rfl⟩

theorem header_of_stream {bodies : List (List β)} {cells rest : List β}
    (h : stream H bodies = cells ++ rest) (hlen : cells.length = H.width) :
    ∃ body bodies', bodies = body :: bodies' ∧ cells = H.encode body.length ∧
      rest = body ++ stream H bodies' := by
  have hne : cells ≠ [] := by
    intro hnil
    have := H.width_pos
    rw [hnil, List.length_nil] at hlen
    omega
  rcases exists_of_stream h hne with ⟨body, bodies', rfl⟩
  rw [stream_cons, frame, List.append_assoc] at h
  have hsplit := List.append_inj h (by rw [H.length_encode, hlen])
  exact ⟨body, bodies', rfl, hsplit.1.symm, hsplit.2.symm⟩

theorem body_of_stream {body : List β} {bodies : List (List β)} {cells rest : List β}
    (h : stream H (body :: bodies) = H.encode body.length ++ (cells ++ rest))
    (hlen : cells.length = body.length) : cells = body ∧ rest = stream H bodies := by
  rw [stream_cons, frame, List.append_assoc] at h
  have hsplit := List.append_inj (List.append_cancel_left h) hlen.symm
  exact ⟨hsplit.1.symm, hsplit.2.symm⟩

end Frames
end ReplicatedTree
