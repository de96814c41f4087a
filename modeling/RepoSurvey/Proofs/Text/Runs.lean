import Mathlib.Algebra.BigOperators.Finprod
import Mathlib.Data.Set.Card
import RepoSurvey.Proofs.Text.Pieces

/-!
# Runs

A run of a text is a longest stretch of characters of one class. `IsRun` says so of any stretch,
`runs` lists the runs of a text one after the other, and the list holds each run once
(`mem_runs_iff`, `nodup_runs`), so that what is counted or summed up along the list is the number or
the sum over all runs (`ncard_isRun`, `finsum_isRun`).

`runsFrom` looks for the places at which a run begins, with the character that stands in front as
its only memory. So a count from place to place counts runs (`countP_runsFrom_cons`), a text that
is cut at a character of another class has the runs of its two parts (`runsFrom_append_cons`), and a
text that begins with a run has it and the runs of what follows (`runs_run_append`).
-/

namespace RepoSurvey.Text

/-- A stretch of a text, with what follows it; this tells it from others of the same characters. -/
structure Run where
  chars : List Char
  after : List Char
deriving DecidableEq, Repr

/-- A stretch of a text that stands behind the character `prev`, all in a class and with nothing of
this class at either end of it. -/
def IsRunBehind (p : Char → Bool) (prev : Option Char) (cs : List Char) (r : Run) : Prop :=
  ∃ before, cs = before ++ (r.chars ++ r.after) ∧ r.chars ≠ [] ∧ (∀ c ∈ r.chars, p c = true) ∧
    (∀ c ∈ before.getLast?.or prev, p c = false) ∧ ∀ c ∈ r.after.head?, p c = false

/-- A maximal stretch of characters of a class in a text. -/
def IsRun (p : Char → Bool) (cs : List Char) (r : Run) : Prop := IsRunBehind p none cs r

/-- The runs of a text that stands behind the character `prev`. -/
def runsFrom (p : Char → Bool) : (prev : Option Char) → List Char → List Run
  | _, [] => []
  | prev, c :: cs =>
    if p c = true ∧ prev.any p = false then
      ⟨(c :: cs).takeWhile p, (c :: cs).dropWhile p⟩ :: runsFrom p (some c) cs
    else runsFrom p (some c) cs

/-- The runs of a text. -/
def runs (p : Char → Bool) (cs : List Char) : List Run := runsFrom p none cs

section Runs

variable {p : Char → Bool} {prev : Option Char} {c : Char} {cs run rest : List Char} {r : Run}

/-! ### Each run once -/

/-- A run begins with the first character or is a run of what follows. -/
theorem isRunBehind_cons : IsRunBehind p prev (c :: cs) r ↔
    (p c = true ∧ prev.any p = false) ∧ r = ⟨(c :: cs).takeWhile p, (c :: cs).dropWhile p⟩ ∨
      IsRunBehind p (some c) cs r := by
  constructor
  · rintro ⟨- | ⟨d, before⟩, htext, hne, hrun, hbefore, hafter⟩
    · rw [List.nil_append] at htext
      refine .inl ⟨⟨?_, (Option.any_eq_false p prev).2 hbefore⟩, ?_⟩
      · obtain ⟨d, chars, hchars⟩ := List.exists_cons_of_ne_nil hne
        rw [hchars, List.cons_append] at htext
        rw [(List.cons.inj htext).1]
        exact hrun d (hchars ▸ List.mem_cons_self)
      · obtain ⟨htake, hdrop⟩ := takeWhile_dropWhile_append hrun hafter
        rw [htext, htake, hdrop]
    · rw [List.cons_append] at htext
      obtain ⟨rfl, htail⟩ := List.cons.inj htext
      rw [getLast?_cons_or] at hbefore
      exact .inr ⟨before, htail, hne, hrun, hbefore, hafter⟩
  · rintro (⟨⟨hc, hprev⟩, rfl⟩ | ⟨before, rfl, hne, hrun, hbefore, hafter⟩)
    · refine ⟨[], ?_, ?_, fun d ↦ List.mem_takeWhile_imp, (Option.any_eq_false p prev).1 hprev,
        head?_dropWhile p _⟩
      · rw [List.nil_append, List.takeWhile_append_dropWhile]
      · rw [List.takeWhile_cons_of_pos hc]
        exact List.cons_ne_nil _ _
    · rw [← getLast?_cons_or c before prev] at hbefore
      exact ⟨c :: before, rfl, hne, hrun, hbefore, hafter⟩

theorem not_isRunBehind_nil : ¬IsRunBehind p prev [] r := by
  rintro ⟨before, htext, hne, -⟩
  simp at htext
  exact hne htext.2.1

/-- The runs of a text are all those stretches that are runs of it. -/
theorem mem_runsFrom_iff : r ∈ runsFrom p prev cs ↔ IsRunBehind p prev cs r := by
  induction cs generalizing prev with
  | nil => exact iff_of_false List.not_mem_nil not_isRunBehind_nil
  | cons c cs ih =>
    rw [isRunBehind_cons, runsFrom]
    split
    · rename_i hbegins
      rw [List.mem_cons, ih, and_iff_right hbegins]
    · rename_i hinside
      rw [ih, or_iff_right fun h ↦ hinside h.1]

/-- A run and what follows it are no longer than the text. -/
theorem length_le_of_mem_runsFrom (h : r ∈ runsFrom p prev cs) :
    (r.chars ++ r.after).length ≤ cs.length := by
  obtain ⟨before, rfl, -⟩ := mem_runsFrom_iff.1 h
  exact (List.suffix_append before _).length_le

/-- No run is listed twice: what follows tells one from another. -/
theorem nodup_runsFrom (p : Char → Bool) (prev : Option Char) (cs : List Char) :
    (runsFrom p prev cs).Nodup := by
  induction cs generalizing prev with
  | nil => exact List.nodup_nil
  | cons c cs ih =>
    rw [runsFrom]
    split
    · refine List.nodup_cons.2 ⟨fun hmem ↦ ?_, ih _⟩
      -- the first run reaches further back than all others
      have hle := length_le_of_mem_runsFrom hmem
      rw [List.takeWhile_append_dropWhile, List.length_cons] at hle
      exact Nat.not_succ_le_self _ hle
    · exact ih _

theorem mem_runs_iff : r ∈ runs p cs ↔ IsRun p cs r := mem_runsFrom_iff

/-- Each run of a text is listed once. -/
theorem nodup_runs (p : Char → Bool) (cs : List Char) : (runs p cs).Nodup :=
  nodup_runsFrom p none cs

/-- So to count the list is to count the runs. -/
theorem ncard_isRun (p : Char → Bool) (cs : List Char) (q : Run → Prop) [DecidablePred q] :
    {r | IsRun p cs r ∧ q r}.ncard = (runs p cs).countP (q ·) := by
  have hset : {r | IsRun p cs r ∧ q r} = (((runs p cs).filter (q ·)).toFinset : Set Run) := by
    ext r
    simp [mem_runs_iff]
  rw [hset, Set.ncard_coe_finset, List.toFinset_card_of_nodup ((nodup_runs p cs).filter _),
    List.countP_eq_length_filter]

/-- And to add up along the list is to add up over the runs. -/
theorem finsum_isRun (p : Char → Bool) (cs : List Char) (f : Run → Nat) :
    ∑ᶠ r ∈ {r | IsRun p cs r}, f r = ((runs p cs).map f).sum := by
  have hset : {r | IsRun p cs r} = ((runs p cs).toFinset : Set Run) := by
    ext r
    simp [mem_runs_iff]
  rw [hset, finsum_mem_coe_finset, List.sum_toFinset f (nodup_runs p cs)]

/-! ### One place after the other -/

/-- Counted place by place, a run counts where it begins. -/
theorem countP_runsFrom_cons (q : Run → Prop) [DecidablePred q] :
    (runsFrom p prev (c :: cs)).countP (q ·) =
      (if (p c = true ∧ prev.any p = false) ∧
        q ⟨(c :: cs).takeWhile p, (c :: cs).dropWhile p⟩ then 1 else 0) +
      (runsFrom p (some c) cs).countP (q ·) := by
  rw [runsFrom]
  split
  · rename_i hbegins
    rw [List.countP_cons, Nat.add_comm]
    simp only [hbegins, and_self, true_and, decide_eq_true_eq]
  · rename_i hinside
    rw [if_neg fun h ↦ hinside h.1, Nat.zero_add]

/-! ### Cutting a text -/

/-- A character of another class is in no run, and what follows it begins anew. -/
theorem runsFrom_cons_of_not (hc : p c = false) (prev : Option Char) (cs : List Char) :
    runsFrom p prev (c :: cs) = runsFrom p none cs := by
  rw [runsFrom, if_neg (by simp [hc])]
  cases cs with
  | nil => rfl
  | cons d cs => simp [runsFrom, hc]

/-- No run goes over a character of another class, so the runs on both sides are runs of their
own. -/
theorem runsFrom_append_cons (hc : p c = false) (prev : Option Char) (front back : List Char) :
    runsFrom p prev (front ++ c :: back) =
      (runsFrom p prev front).map (fun r ↦ ⟨r.chars, r.after ++ c :: back⟩) ++ runs p back := by
  induction front generalizing prev with
  | nil => exact runsFrom_cons_of_not hc prev back
  | cons d front ih =>
    obtain ⟨htake, hdrop⟩ := takeWhile_dropWhile_append_cons hc (d :: front) back
    rw [List.cons_append] at htake hdrop
    rw [List.cons_append, runsFrom, runsFrom, ih, htake, hdrop]
    split <;> rfl

/-- Inside of a run none begins before its end. -/
theorem runsFrom_inside (hrun : ∀ c ∈ run, p c = true) (hc : p c = true)
    (hrest : ∀ c ∈ rest.head?, p c = false) : runsFrom p (some c) (run ++ rest) = runs p rest := by
  induction run generalizing c with
  | nil =>
    cases rest with
    | nil => rfl
    | cons d rest =>
      rw [List.nil_append, runs, runsFrom_cons_of_not (hrest d rfl),
        runsFrom_cons_of_not (hrest d rfl)]
  | cons d run ih =>
    obtain ⟨hd, hrun⟩ := List.forall_mem_cons.1 hrun
    rw [List.cons_append, runsFrom, if_neg (by simp [hc]), ih hrun hd]

/-- A run at the front is the first run. -/
theorem runs_run_append (hne : run ≠ []) (hrun : ∀ c ∈ run, p c = true)
    (hrest : ∀ c ∈ rest.head?, p c = false) :
    runs p (run ++ rest) = ⟨run, rest⟩ :: runs p rest := by
  cases run with
  | nil => exact absurd rfl hne
  | cons c run =>
    obtain ⟨htake, hdrop⟩ := takeWhile_dropWhile_append hrun hrest
    obtain ⟨hc, hrun⟩ := List.forall_mem_cons.1 hrun
    rw [List.cons_append] at htake hdrop ⊢
    rw [runs, runsFrom, if_pos ⟨hc, rfl⟩, htake, hdrop, runsFrom_inside hrun hc hrest]

/-- A text is empty, begins outside of the class, or begins with a run. -/
@[elab_as_elim]
theorem runs_induction (p : Char → Bool) {motive : List Char → Prop} (nil : motive [])
    (outside : ∀ c cs, p c = false → motive cs → motive (c :: cs))
    (run : ∀ run rest, run ≠ [] → (∀ c ∈ run, p c = true) → (∀ c ∈ rest.head?, p c = false) →
      motive rest → motive (run ++ rest)) (cs : List Char) : motive cs := by
  induction hlength : cs.length using Nat.strong_induction_on generalizing cs with
  | h n ih =>
    cases cs with
    | nil => exact nil
    | cons c cs =>
      subst hlength
      rcases hc : p c with - | -
      · exact outside c cs hc (ih cs.length (Nat.lt_succ_self _) cs rfl)
      · have hne : (c :: cs).takeWhile p ≠ [] := by
          rw [List.takeWhile_cons_of_pos hc]
          exact List.cons_ne_nil _ _
        have hshorter : ((c :: cs).dropWhile p).length < (c :: cs).length := by
          rw [List.dropWhile_cons_of_pos hc]
          exact Nat.lt_succ_of_le (List.dropWhile_suffix p).length_le
        rw [← List.takeWhile_append_dropWhile (p := p) (l := c :: cs)]
        exact run _ _ hne (fun d ↦ List.mem_takeWhile_imp) (head?_dropWhile p _)
          (ih _ hshorter _ rfl)

end Runs

end RepoSurvey.Text
