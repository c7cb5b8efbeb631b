import Mathlib.Logic.Relation

/-!
# Programs that may be interrupted

A program is a tree of external calls: what it does next depends on what the calls answered.
It may be stopped before or after any of them.

    Reaches p w w'     p, started in w, has brought the world to w' so far
    Ends p w a w'      p, started in w, ends in w' with result a
    Safe I Q p w       every call of p keeps I, and p ends with Q

`Safe` goes through programs by `Safe.bind` and `Safe.foldlM`.  `exec` runs a program
with a world that answers every call, and `execFor` a number of its calls.
-/

namespace Waterdisco

inductive Prog (Op : Type) (Res : Op → Type) (α : Type) where
  | pure (a : α)
  | call (o : Op) (k : Res o → Prog Op Res α)

namespace Prog

variable {Op : Type} {Res : Op → Type} {α β W : Type}

def bind (p : Prog Op Res α) (f : α → Prog Op Res β) : Prog Op Res β :=
  match p with
  | .pure a => f a
  | .call o k => .call o fun r => (k r).bind f

instance : Monad (Prog Op Res) where
  pure := .pure
  bind := bind

/-- One call, for its answer. -/
def ask (o : Op) : Prog Op Res (Res o) := .call o .pure

/-- A loop over a list that carries a state. -/
def foldlM {σ ι : Type} (f : σ → ι → Prog Op Res σ) : σ → List ι → Prog Op Res σ
  | s, [] => .pure s
  | s, i :: l => (f s i).bind fun s => foldlM f s l

section
variable (step : W → (o : Op) → Res o → W → Prop)

def Reaches : Prog Op Res α → W → W → Prop
  | .pure _, w, w' => w' = w
  | .call o k, w, w' => w' = w ∨ ∃ r w₁, step w o r w₁ ∧ Reaches (k r) w₁ w'

def Ends : Prog Op Res α → W → α → W → Prop
  | .pure a, w, b, w' => b = a ∧ w' = w
  | .call o k, w, b, w' => ∃ r w₁, step w o r w₁ ∧ Ends (k r) w₁ b w'

def Safe (I : W → Prop) (Q : α → W → Prop) : Prog Op Res α → W → Prop
  | .pure a, w => Q a w
  | .call o k, w => ∀ r w₁, step w o r w₁ → I w₁ ∧ Safe I Q (k r) w₁

end

variable {step : W → (o : Op) → Res o → W → Prop} {I : W → Prop}

variable {Q : α → W → Prop} {p : Prog Op Res α} {w : W}

theorem Safe.reaches {w' : W} (h : Safe step I Q p w) (hw : I w)
    (hr : Reaches step p w w') : I w' := by
  induction p generalizing w with
  | pure a =>
    obtain rfl : w' = w := hr
    exact hw
  | call o k ih =>
    rcases hr with rfl | ⟨r, w₁, hstep, hr⟩
    · exact hw
    · obtain ⟨hw₁, hsafe⟩ := h r w₁ hstep
      exact ih r hsafe hw₁ hr

theorem Safe.ends {w' : W} {a : α} (h : Safe step I Q p w)
    (he : Ends step p w a w') : Q a w' := by
  induction p generalizing w with
  | pure b =>
    obtain ⟨rfl, rfl⟩ : a = b ∧ w' = w := he
    exact h
  | call o k ih =>
    obtain ⟨r, w₁, hstep, he⟩ := he
    exact ih r (h r w₁ hstep).2 he

theorem Safe.mono {Q' : α → W → Prop} (h : Safe step I Q p w) (hQ : ∀ a w, Q a w → Q' a w) :
    Safe step I Q' p w := by
  induction p generalizing w with
  | pure a => exact hQ a w h
  | call o k ih => exact fun r w₁ hstep => ⟨(h r w₁ hstep).1, ih r (h r w₁ hstep).2⟩

theorem Safe.bind {Q : β → W → Prop} {f : α → Prog Op Res β}
    (h : Safe step I (fun a w => Safe step I Q (f a) w) p w) : Safe step I Q (p.bind f) w := by
  induction p generalizing w with
  | pure a => exact h
  | call o k ih => exact fun r w₁ hstep => ⟨(h r w₁ hstep).1, ih r (h r w₁ hstep).2⟩

theorem Safe.ask {Q : β → W → Prop} {o : Op} {f : Res o → Prog Op Res β}
    (h : ∀ r w₁, step w o r w₁ → I w₁ ∧ Safe step I Q (f r) w₁) : Safe step I Q ((Prog.ask o).bind f) w := h

/-- A loop keeps what each turn keeps, and the call invariant with it. -/
theorem Safe.foldlM {σ ι : Type} {f : σ → ι → Prog Op Res σ} {l : List ι} {Q : List ι → σ → W → Prop}
    (hf : ∀ i l s w, Q (i :: l) s w → Safe step I (fun s w => Q l s w) (f s i) w) {s : σ} (h : Q l s w) :
    Safe step I (fun s w => Q [] s w) (Prog.foldlM f s l) w := by
  induction l generalizing s w with
  | nil => exact h
  | cons i l ih => exact Safe.bind ((hf i l s w h).mono fun s w hs => ih hs)

/-! ## Running -/

section
variable (answer : W → (o : Op) → Res o × W)

def exec : Prog Op Res α → W → α × W
  | .pure a, w => (a, w)
  | .call o k, w => exec (k (answer w o).1) (answer w o).2

/-- The world after the first `n` calls. -/
def execFor : Nat → Prog Op Res α → W → W
  | 0, _, w => w
  | _ + 1, .pure _, w => w
  | n + 1, .call o k, w => execFor n (k (answer w o).1) (answer w o).2

end

variable {answer : W → (o : Op) → Res o × W}

theorem exec_ends (hanswer : ∀ w o, step w o (answer w o).1 (answer w o).2) (p : Prog Op Res α) (w : W) :
    Ends step p w (exec answer p w).1 (exec answer p w).2 := by
  induction p generalizing w with
  | pure a => exact ⟨rfl, rfl⟩
  | call o k ih => exact ⟨_, _, hanswer w o, ih _ _⟩

theorem execFor_reaches (hanswer : ∀ w o, step w o (answer w o).1 (answer w o).2) (n : Nat) (p : Prog Op Res α) (w : W) :
    Reaches step p w (execFor answer n p w) := by
  induction n generalizing p w with
  | zero =>
    cases p with
    | pure a => rfl
    | call o k => exact .inl rfl
  | succ n ih =>
    cases p with
    | pure a => rfl
    | call o k => exact .inr ⟨_, _, hanswer w o, ih _ _⟩

end Prog

end Waterdisco
