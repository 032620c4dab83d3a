import DeskCalculator.Diagnosis.Problem
import DeskCalculator.Proofs.Buffer.Succession
import Mathlib.Data.List.Infix

/-!
# Implicit products

A multiplication sign is put in where an opening parenthesis would follow a value and where a number
would follow a closing parenthesis. There is one exception: an opening parenthesis that takes the
place of a lone zero can come to stand right after a percent sign.
-/

namespace DeskCalculator.Buffer

open Diagnosis (endsValue)
open Expression (isLiteralChar)

/-- One change of a buffer. -/
inductive Edit where
  | append (key : Key)
  | backspace
  | toggleSign
  | parenthesis

/-- The buffer after a change. -/
def Edit.apply (b : List Char) : Edit → List Char
  | append key => Buffer.append b key
  | backspace => Buffer.backspace b
  | toggleSign => (toggleSign? b).getD b
  | parenthesis => Buffer.parenthesis b

/-- The buffer after changes of an empty display. -/
def edited (edits : List Edit) : List Char :=
  edits.foldl Edit.apply zero

private theorem edited_concat (edits : List Edit) (e : Edit) :
    edited (edits ++ [e]) = e.apply (edited edits) := by
  simp [edited]

/-- No opening parenthesis directly follows a value, and no number a closing parenthesis. -/
def KeepsProducts (b : List Char) : Prop :=
  b.IsChain fun c d ↦ (d = '(' → endsValue c = false) ∧ (c = ')' → isLiteralChar d = false)

instance (b : List Char) : Decidable (KeepsProducts b) :=
  inferInstanceAs (Decidable (b.IsChain _))

/-- After a closing parenthesis no number goes on. -/
theorem isLiteralChar_of_follows_closing {k : Lapses} {d : Char} (h : follows k ')' d) :
    isLiteralChar d = false := by
  rw [isLiteralChar, Bool.or_eq_false_iff]
  constructor
  · rw [← Bool.not_eq_true]
    intro hd
    exact (follows_digit hd).mp h rfl
  · rw [beq_eq_false_iff_ne]
    rintro rfl
    cases hk : k.points <;> simp [follows_point, isOperatorGlyph] at h

/-- One change keeps the shape of a buffer. -/
theorem Shaped.apply {k : Lapses} {b : List Char} (h : Shaped k b) {e : Edit}
    (hkey : ∀ key, e = .append key → key.OnKeypad) (hopen : e = .append .opening → k.Open b) :
    Shaped k (e.apply b) := by
  cases e with
  | append key => exact h.append (hkey key rfl).valid fun heq ↦ hopen (by rw [heq])
  | backspace => exact h.backspace
  | toggleSign =>
    rw [Edit.apply]
    cases hb : toggleSign? b with
    | none => exact h
    | some b' => exact .toggleSign hb
  | parenthesis => exact h.parenthesis

/-- So do all changes, one after the other. -/
theorem shaped_edited {k : Lapses} {edits : List Edit}
    (hkeys : ∀ key, .append key ∈ edits → key.OnKeypad)
    (hopen : ∀ done rest, edits = done ++ .append .opening :: rest → k.Open (edited done)) :
    Shaped k (edited edits) := by
  induction edits using List.reverseRecOn with
  | nil => exact .zero
  | append_singleton edits e ih =>
    rw [edited_concat]
    apply Shaped.apply
    · apply ih
      · exact fun key hkey ↦ hkeys key (List.mem_append_left _ hkey)
      · rintro done rest rfl
        exact hopen done (rest ++ [e]) (by simp)
    · rintro key rfl
      exact hkeys key (by simp)
    · rintro rfl
      exact hopen edits [] rfl

private theorem Shaped.keepsProducts {b : List Char} (h : Shaped ⟨false, false⟩ b) :
    KeepsProducts b := by
  apply (List.IsChain.tail h.2.chain).imp
  intro c d hcd
  constructor
  · rintro rfl
    rw [follows_opening] at hcd
    simp at hcd
    simp [endsValue, hcd]
  · rintro rfl
    exact isLiteralChar_of_follows_closing hcd

/-- An opening parenthesis over a lone zero after a percent sign follows that sign. -/
private theorem not_keepsProducts_appendOpening {b : List Char} (h : ['%', '0'] <:+ b) :
    ¬ KeepsProducts (appendOpening b) := by
  obtain ⟨a, rfl⟩ := h
  have hzero : trailingNumber (a ++ ['%', '0']) = ['0'] := by
    rw [List.append_cons, trailingNumber_append_run (by rw [lastChar_concat]; rfl) (by simp; rfl)]
  have hopening : appendOpening (a ++ ['%', '0']) = a ++ '%' :: '(' :: [] := by
    rw [appendOpening, if_pos hzero]
    simp
  rw [hopening]
  intro hkeeps
  have hpair := List.isChain_iff_forall_rel_of_append_cons_cons.mp hkeeps rfl
  exact absurd (hpair.1 rfl) (by decide)

/-- Whatever is typed and edited, no opening parenthesis directly follows a number or a closing
parenthesis, and no number a closing parenthesis. None of the buffers on the way has an opening
parenthesis right after a percent sign exactly if the key for one is never pressed after a percent
sign and a lone zero. -/
theorem products_kept_iff {edits : List Edit} (hkeys : ∀ key, .append key ∈ edits → key.OnKeypad) :
    (edited edits).IsChain (fun c d ↦
      (d = '(' → isLiteralChar c = false ∧ c ≠ ')') ∧ (c = ')' → isLiteralChar d = false)) ∧
    ((∀ done, done <+: edits → KeepsProducts (edited done)) ↔
      ∀ done rest, edits = done ++ .append .opening :: rest → ¬ ['%', '0'] <:+ edited done) := by
  constructor
  · have hshaped : Shaped ⟨false, true⟩ (edited edits) := shaped_edited hkeys fun _ _ _ _ ↦ rfl
    apply (List.IsChain.tail hshaped.2.chain).imp
    intro c d hcd
    constructor
    · rintro rfl
      rw [follows_opening] at hcd
      simpa using hcd
    · rintro rfl
      exact isLiteralChar_of_follows_closing hcd
  · constructor
    · rintro hkeeps done rest rfl hzero
      have hbefore : done ++ [.append .opening] <+: done ++ .append .opening :: rest := by simp
      have hkept := hkeeps _ hbefore
      rw [edited_concat] at hkept
      exact not_keepsProducts_appendOpening hzero hkept
    · rintro hopen done ⟨later, rfl⟩
      apply Shaped.keepsProducts
      apply shaped_edited
      · exact fun key hkey ↦ hkeys key (List.mem_append_left _ hkey)
      · rintro before rest rfl hzero
        exact absurd hzero (hopen before (rest ++ later) (by simp))

/-- Behind `5%0` it is the parenthesis key that opens, not the key `(`, so the product sign is put.
A second parenthesis is deleted again, and behind the closed one a point starts a factor. -/
theorem products_kept_by_parenthesis_key :
    let edits : List Edit := [.append (.digits ['5']), .append .percent, .append (.digits ['0']),
      .parenthesis, .append .opening, .backspace, .append (.digits ['2']), .append .closing,
      .append .dot, .toggleSign]
    (∀ key, .append key ∈ edits → key.OnKeypad) ∧ edited edits = "5%0×(2)×0.".toList ∧
      ∀ done rest, edits = done ++ .append .opening :: rest → ¬ ['%', '0'] <:+ edited done := by
  intro edits
  have hkeys : ∀ key, .append key ∈ edits → key.OnKeypad := by
    intro key hkey
    simp only [edits, List.mem_cons, Edit.append.injEq, reduceCtorEq, List.not_mem_nil, false_or,
      or_false] at hkey
    rcases hkey with rfl | rfl | rfl | rfl | rfl | rfl | rfl
    · exact .inl ⟨['5'], rfl⟩
    · exact .inl ⟨['%'], rfl⟩
    · exact .inl ⟨['0'], rfl⟩
    · exact .inl ⟨['('], rfl⟩
    · exact .inl ⟨['2'], rfl⟩
    · exact .inl ⟨[')'], rfl⟩
    · exact .inl ⟨['.'], rfl⟩
  have hbuffer : edited edits = "5%0×(2)×0.".toList := by decide
  have hbuffers : ∀ done ∈ edits.inits, KeepsProducts (edited done) := by decide
  refine ⟨hkeys, hbuffer, (products_kept_iff hkeys).2.mp fun done hdone ↦ ?_⟩
  exact hbuffers done ((List.mem_inits _ _).mpr hdone)

/-- The product of a percentage and a group is lost where the group takes the place of a zero. -/
theorem product_lost_over_zero :
    let edits : List Edit :=
      [.append (.digits ['5']), .append .percent, .append (.digits ['0']), .append .opening]
    (∀ e ∈ edits, ∃ text key, Key.parse? text = some key ∧ e = .append key) ∧
      edited edits = "5%(".toList ∧ ¬ KeepsProducts (edited edits) := by
  intro edits
  refine ⟨?_, by decide, by decide⟩
  intro e he
  simp only [edits, List.mem_cons, List.not_mem_nil, or_false] at he
  rcases he with rfl | rfl | rfl | rfl
  · exact ⟨['5'], _, rfl, rfl⟩
  · exact ⟨['%'], _, rfl, rfl⟩
  · exact ⟨['0'], _, rfl, rfl⟩
  · exact ⟨['('], _, rfl, rfl⟩

end DeskCalculator.Buffer
