import DeskCalculator.Proofs.Buffer.Repair
import DeskCalculator.Proofs.Session.Texts

/-!
# Typing cannot make an expression malformed

A session that starts with an empty display and in which no text is entered, no percent sign and no
closing parenthesis typed, keeps a buffer that is the beginning of an expression. So calculating it
can fail only because the expression ends too early or has no finite value.
-/

namespace DeskCalculator

open Expression (compute CalcError)

/-- Whether an operation is one with the keys or the recorded calculations, but types no `)` and no
`%`. -/
def Operation.isTyping : Operation → Bool
  | .type text => text != [')'] && text != ['%']
  | .press _ | .enter _ => false
  | _ => true

/-- The error of the beginning of an expression. -/
def IsTypingError (e : CalcError) : Prop :=
  e = .invalidExpression .unexpectedEnd ∨ e = .invalidExpression .nonFinite

namespace Session

/-- What keeps a buffer the beginning of an expression. -/
theorem stable_typed : Buffer.Stable Buffer.Typed Buffer.Key.Typing True where
  zero := .zero
  chained x hx op := by
    have hplain := Number.isPlainNumber_displayText hx
    obtain ⟨p, hp, hvalue⟩ := Buffer.Viable.nil.append_plainNumber hplain
    exact ⟨by simp, _, _, hp.append_operator fun hoperand ↦ absurd hoperand hvalue⟩
  answer _ hx := Number.isPlainNumber_displayText hx
  fresh _ hkey := .fresh hkey
  append _ _ h hkey := h.append hkey
  backspace _ h := h.backspace
  toggleSign b _ h hb := by
    have htoggled := h.toggleSign
    rwa [hb] at htoggled
  parenthesis _ h := h.parenthesis
  suggestion _ _ _ _ h hfixed := h.suggestion hfixed

/-- The operations of typing type no other keys. -/
private theorem within_of_isTyping {op : Operation} (h : op.isTyping) :
    op.Within Buffer.Key.Typing True := by
  cases op with
  | type text =>
    rw [Operation.isTyping, Bool.and_eq_true, bne_iff_ne, bne_iff_ne] at h
    intro key hkey
    exact Buffer.Key.typing_of_parse? hkey h.1 h.2
  | press key => cases h
  | enter text => cases h
  | _ => trivial

/-- A buffer that was typed can fail only as the beginning of an expression does. -/
private theorem isTypingError {b : List Char} (h : Buffer.Typed b) {e : CalcError}
    (he : compute b = .error e) : IsTypingError e := by
  obtain ⟨hne, p, n, h⟩ := h
  rcases h.compute_cases hne with ⟨x, hx⟩ | hx | ⟨hx, -⟩
  · rw [hx] at he
    cases he
  · rw [hx] at he
    cases he
    exact .inr rfl
  · rw [hx] at he
    cases he
    exact .inl rfl

/-! ### Closing what is open -/

/-- The parenthesis key closes what is open after a value. -/
private theorem parenthesis_buffer {s : Session} {p : Buffer.Place} {n : Nat}
    (hphase : s.phase ≠ .executed) (h : Buffer.Viable s.buffer p (n + 1)) (hp : p ≠ .operand) :
    s.parenthesis.buffer = s.buffer ++ [')'] := by
  have hexecuted : s.isExecuted = false := by simpa [isExecuted] using hphase
  have hcount := h.count_opening
  have hzero : s.buffer ≠ Buffer.zero := by
    intro hzero
    rw [hzero] at hcount
    simp [Buffer.zero] at hcount
  have hwants : Buffer.wantsValue s.buffer = false := by
    rw [← Bool.not_eq_true, h.wantsValue_iff]
    exact hp
  have hopen : s.buffer.count ')' < s.buffer.count '(' := by omega
  simp [Session.parenthesis, edit, hexecuted, Buffer.parenthesis, hzero, hopen, hwants]

/-- Pressing the parenthesis key again and again closes one parenthesis after the other. -/
private theorem exists_repeat_parenthesis {s : Session} {p : Buffer.Place} {n k : Nat}
    (hphase : s.phase ≠ .executed) (h : Buffer.Viable s.buffer p (n + k)) (hp : p ≠ .operand) :
    (k.repeat Session.parenthesis s).phase ≠ .executed ∧
      ∃ q, Buffer.Viable (k.repeat Session.parenthesis s).buffer q n ∧ q ≠ .operand := by
  induction k generalizing n with
  | zero => exact ⟨hphase, p, h, hp⟩
  | succ k ih =>
    obtain ⟨hphase', q, hq, hvalue⟩ := ih (n := n + 1) (by rwa [Nat.add_right_comm])
    rw [Nat.repeat]
    refine ⟨by simp [Session.parenthesis, edit], .closed, ?_, by simp⟩
    rw [parenthesis_buffer hphase' hq hvalue]
    exact .closing hq hvalue

/-- Whatever is typed without `)` and `%`, calculating can fail only because the expression ends too
early or has no finite value. Once the parentheses that are open after a value are closed with the
parenthesis key, it can fail only by having no finite value. -/
theorem typing_never_malformed (defaults : Defaults) {steps : List (History.Clock × Operation)}
    (hsteps : ∀ step ∈ steps, step.2.isTyping) :
    let s := (fresh defaults none).run steps
    (∀ now e d, (s.calculate now).session.phase = .failed e d →
      e = .invalidExpression .unexpectedEnd ∨ e = .invalidExpression .nonFinite) ∧
    ∀ n, s.phase = .editing → (∃ c ∈ s.buffer.getLast?, c.isDigit ∨ c = '.' ∨ c = ')') →
      s.buffer.count '(' = s.buffer.count ')' + n →
      (∃ x, compute (n.repeat Session.parenthesis s).buffer = .ok x) ∨
        compute (n.repeat Session.parenthesis s).buffer =
          .error (.invalidExpression .nonFinite) := by
  intro s
  have htexts : s.AllTexts Buffer.Typed :=
    AllTexts.run stable_typed defaults fun step hstep ↦ within_of_isTyping (hsteps step hstep)
  clear_value s
  constructor
  · intro now e d hphase
    have hafter := AllTexts.calculate stable_typed htexts now
    exact isTypingError hafter.buffer (hafter.coherent.failed e d hphase).1
  · intro n hphase hlast hcount
    obtain ⟨-, p, m, h⟩ := htexts.buffer
    have hm : m = n := by
      have := h.count_opening
      omega
    have hp : p ≠ .operand := by
      obtain ⟨c, hc, hcases⟩ := hlast
      rw [Option.mem_def] at hc
      rw [← h.endsInValue_iff, hc, Option.any_some]
      rcases hcases with hdigit | rfl | rfl
      · rw [Buffer.isLiteralChar_of_isDigit hdigit, Bool.true_or, Bool.true_or]
      · rfl
      · rfl
    subst hm
    rw [← Nat.zero_add m] at h
    have hexecuted : s.phase ≠ .executed := by simp [hphase]
    obtain ⟨-, q, hq, hvalue⟩ := exists_repeat_parenthesis hexecuted h hp
    rcases hq.compute_cases (hq.ne_nil hvalue) with hx | hx | ⟨-, hend⟩
    · exact .inl hx
    · exact .inr hx
    · exact absurd rfl (hend.resolve_left hvalue)

/-- A repair is taken over and calculated, its sign is flipped and the answer typed, so that the
buffer ends with a point inside two open parentheses. Two presses of the parenthesis key close them.
-/
theorem typing_after_repair_closes :
    let steps := List.map (Prod.mk (⟨0, 1970, 1, 1, 0, 0⟩ : History.Clock))
      [.type ['('], .type ['-'], .type ['2'], .type ['×'], .type ['('], .type ['5'], .type ['+'],
        .calculate, .acceptFix, .calculate, .toggleSign, .type ['÷'], .type ['('], .typeAnswer,
        .type ['('], .type ['0'], .type ['.']]
    let s := (fresh .standard none).run steps
    (∀ step ∈ steps, step.2.isTyping) ∧ s.phase = .editing ∧ s.buffer = "10÷(-10×(0.".toList ∧
      ((∃ x, compute (Nat.repeat Session.parenthesis 2 s).buffer = .ok x) ∨
        compute (Nat.repeat Session.parenthesis 2 s).buffer =
          .error (.invalidExpression .nonFinite)) := by
  intro steps s
  have hsteps : ∀ step ∈ steps, step.2.isTyping := by decide
  have hphase : s.phase = .editing := by decide +kernel
  have hbuffer : s.buffer = "10÷(-10×(0.".toList := by decide +kernel
  have hlast : ∃ c ∈ s.buffer.getLast?, c.isDigit ∨ c = '.' ∨ c = ')' := by
    rw [hbuffer]
    exact ⟨'.', rfl, .inr (.inl rfl)⟩
  have hcount : s.buffer.count '(' = s.buffer.count ')' + 2 := by
    rw [hbuffer]
    rfl
  exact ⟨hsteps, hphase, hbuffer, (typing_never_malformed .standard hsteps).2 2 hphase hlast hcount⟩

end Session

end DeskCalculator
