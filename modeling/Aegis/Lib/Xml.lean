import Mathlib.Data.List.Basic

/-! Reading the tags of a document, character by character. -/
namespace Xml

/-- The tags read so far, and the text of the tag that is open. -/
structure Reading where
  tags : List (List Char)
  pending : Option (List Char)
  deriving DecidableEq

namespace Reading

def char (r : Reading) (c : Char) : Reading :=
  match r.pending with
  | none => if c = '<' then ⟨r.tags, some []⟩ else r
  | some t => if c = '>' then ⟨r.tags ++ [t], none⟩ else ⟨r.tags, some (t ++ [c])⟩

def text (r : Reading) (cs : List Char) : Reading := cs.foldl char r

theorem text_append (r : Reading) (cs ds : List Char) :
    r.text (cs ++ ds) = (r.text cs).text ds := List.foldl_append

/-- The tags that were read before stay in front. -/
theorem text_shift (ts : List (List Char)) (r : Reading) (cs : List Char) :
    text ⟨ts ++ r.tags, r.pending⟩ cs = ⟨ts ++ (r.text cs).tags, (r.text cs).pending⟩ := by
  induction cs generalizing r with
  | nil => rfl
  | cons c cs ih =>
    have hstep : char ⟨ts ++ r.tags, r.pending⟩ c =
        ⟨ts ++ (r.char c).tags, (r.char c).pending⟩ := by
      obtain ⟨us, pending⟩ := r
      unfold char
      cases pending with
      | none => dsimp only; split_ifs <;> rfl
      | some t => dsimp only; split_ifs <;> simp
    change text (char ⟨ts ++ r.tags, r.pending⟩ c) cs = _
    rw [hstep]
    exact ih (r.char c)

/-- Between tags, what opens none is skipped. -/
theorem text_outside {cs : List Char} (h : '<' ∉ cs) (ts : List (List Char)) :
    text ⟨ts, none⟩ cs = ⟨ts, none⟩ := by
  induction cs with
  | nil => rfl
  | cons c cs ih =>
    obtain ⟨hc, hcs⟩ := not_or.mp (List.mem_cons.not.mp h)
    have hstep : char ⟨ts, none⟩ c = ⟨ts, none⟩ := if_neg (Ne.symm hc)
    change text (char ⟨ts, none⟩ c) cs = _
    rw [hstep]
    exact ih hcs

/-- Inside a tag, what does not close it belongs to it. -/
theorem text_inside {cs : List Char} (h : '>' ∉ cs) (ts : List (List Char)) (t : List Char) :
    text ⟨ts, some t⟩ cs = ⟨ts, some (t ++ cs)⟩ := by
  induction cs generalizing t with
  | nil => rw [List.append_nil]; rfl
  | cons c cs ih =>
    obtain ⟨hc, hcs⟩ := not_or.mp (List.mem_cons.not.mp h)
    have hstep : char ⟨ts, some t⟩ c = ⟨ts, some (t ++ [c])⟩ := if_neg (Ne.symm hc)
    change text (char ⟨ts, some t⟩ c) cs = _
    rw [hstep, ih hcs, List.append_assoc, List.singleton_append]

theorem text_close {cs : List Char} (h : '>' ∉ cs) (ts : List (List Char)) (t ds : List Char) :
    text ⟨ts, some t⟩ (cs ++ '>' :: ds) = text ⟨ts ++ [t ++ cs], none⟩ ds := by
  rw [text_append, text_inside h]
  rfl

/-- What is read once a tag is open: it goes on, and others may follow. -/
theorem text_open {cs u : List Char} {us : List (List Char)}
    (h : text ⟨[], some []⟩ cs = ⟨u :: us, none⟩) (ts : List (List Char)) (t : List Char) :
    text ⟨ts, some t⟩ cs = ⟨ts ++ (t ++ u) :: us, none⟩ := by
  have hmem : '>' ∈ cs := by
    by_contra hno
    rw [text_inside hno] at h
    cases h
  obtain ⟨as, bs, rfl, hno⟩ := List.eq_append_cons_of_mem hmem
  have hshift (vs : List (List Char)) := text_shift vs ⟨[], none⟩ bs
  simp only [List.append_nil] at hshift
  rw [text_close hno, hshift] at h
  rw [text_close hno, hshift]
  obtain ⟨htags, hnone⟩ := Reading.mk.inj h
  simp only [List.nil_append, List.singleton_append, List.cons.injEq] at htags
  rw [hnone, htags.1, htags.2]
  simp

end Reading

def tags (document : List Char) : List (List Char) := (Reading.text ⟨[], none⟩ document).tags

end Xml
