/-
What masking does to one text.

The matches of a regex are in order and do not overlap, and they are
replaced as they are. The results of a recognizer come from several patterns
and are sorted and joined first. Joining looks at one neighbour only; that
is enough as long as a result that begins later does not end earlier
(`Descends`), and then the joined ranges are in order as well.

The rules are applied one after the other, each to what the ones before have
left (`MaskedBy`).
-/
import AgentGateway.Llm.Guard.Bodies

namespace AgentGateway.Llm.Guard

open Lib List

variable {P : Type}

-- ======== engine

/-- What is known of the engine: matches of a regex come in order and do not
overlap; results of a recognizer lie in the text, and none lies inside
another one. -/
structure Engine.Sound (e : Engine P) : Prop where
  findIter : ∀ pattern text, InOrder text.toList.length 0 (e.findIter pattern text)
  inText : ∀ builtin text, ∀ r ∈ e.recognizer builtin text,
    r.start ≤ r.stop ∧ r.stop ≤ text.toList.length
  notInside : ∀ builtin text, ∀ r ∈ e.recognizer builtin text,
    ∀ r' ∈ e.recognizer builtin text, r'.start ≤ r.start → r'.stop ≤ r.stop

def RegexRule.matches (e : Engine P) (text : Strng) : RegexRule P → List Range
  | .builtin b => (e.recognizer b text).map fun r => ⟨r.start, r.stop⟩
  | .regex p => e.findIter p text

/-- What stands for a match of a rule: the entity that a recognizer names
first. -/
def RegexRule.replacement (e : Engine P) (text : Strng) : RegexRule P → Strng
  | .builtin b =>
    "<" ++ ((e.recognizer b text).head?.map (·.entityType)).getD "" ++ ">"
  | .regex _ => "<masked>"

/-- The text with parts of it replaced. Every match is in one of the parts,
and they begin and end where matches do. -/
def Cut (found : List Range) (replacement text text' : Strng) : Prop :=
  ∃ parts : List Range, InOrder text.toList.length 0 parts
    ∧ (∀ m ∈ found, ∃ c ∈ parts, c.start ≤ m.start ∧ m.stop ≤ c.stop)
    ∧ (∀ c ∈ parts, (∃ m ∈ found, m.start = c.start) ∧ ∃ m ∈ found, m.stop = c.stop)
    ∧ text' = String.ofList (splice replacement.toList 0 text.toList parts)

theorem cut_nil (replacement text : Strng) : Cut [] replacement text text :=
  ⟨[], Nat.zero_le _, nofun, nofun, String.ofList_toList.symm⟩

theorem foldr_replaceRange (replacement text : Strng) (ranges : List Range) :
    ranges.foldr (fun range text => replaceRange text range replacement) text
      = String.ofList (ranges.foldr
        (fun range l => replace l range replacement.toList) text.toList) := by
  induction ranges with
  | nil => exact String.ofList_toList.symm
  | cons range ranges ih =>
    rw [foldr_cons, ih, replaceRange, String.toList_ofList]
    rfl

variable {text : Strng} {ranges : List Range} {a : Range} {e : Engine P}

theorem maskMatches_cut (h : InOrder text.toList.length 0 ranges) :
    Cut ranges "<masked>" text (maskMatches text ranges) := by
  refine ⟨ranges, h, fun m hm => ⟨m, hm, Nat.le_refl _, Nat.le_refl _⟩,
    fun c hc => ⟨⟨c, hc, rfl⟩, c, hc, rfl⟩, ?_⟩
  rw [maskMatches, foldl_reverse, foldr_replaceRange, foldr_replace h]

-- ======== joining

/-- A range after another one begins and ends no later. -/
def Descends (a b : Range) : Prop := b.start ≤ a.start ∧ b.stop ≤ a.stop

theorem descends_join {b : Range} (h : (a :: b :: ranges).Pairwise Descends) :
    (⟨b.start, max a.stop b.stop⟩ :: ranges : List Range).Pairwise Descends := by
  obtain ⟨ha, hranges⟩ := pairwise_cons.1 h
  obtain ⟨hb, hranges⟩ := pairwise_cons.1 hranges
  refine pairwise_cons.2 ⟨fun r hr => ⟨(hb r hr).1, ?_⟩, hranges⟩
  exact Nat.le_trans (hb r hr).2 (Nat.le_max_right _ _)

theorem inOrder_coalesce {n : Nat} (h : (a :: ranges).Pairwise Descends)
    (hle : ∀ r ∈ a :: ranges, r.start ≤ r.stop) (hn : a.stop ≤ n) :
    InOrder n 0 (coalesce a ranges).reverse := by
  induction ranges generalizing a n with
  | nil => exact ⟨Nat.zero_le _, hle a mem_cons_self, hn⟩
  | cons b ranges ih =>
    have hab := (pairwise_cons.1 h).1 b mem_cons_self
    obtain ⟨hlea, hle⟩ := forall_mem_cons.1 hle
    rw [coalesce]
    split
    · refine ih (descends_join h) ?_ (Nat.max_le.2 ⟨hn, Nat.le_trans hab.2 hn⟩)
      refine forall_mem_cons.2 ⟨?_, (forall_mem_cons.1 hle).2⟩
      exact Nat.le_trans (hle b mem_cons_self) (Nat.le_max_right _ _)
    · rename_i hapart
      rw [reverse_cons]
      exact (ih (pairwise_cons.1 h).2 hle (Nat.not_lt.1 hapart)).concat hlea hn

theorem coalesce_covers (h : (a :: ranges).Pairwise Descends) :
    ∀ m ∈ a :: ranges, ∃ c ∈ coalesce a ranges, c.start ≤ m.start ∧ m.stop ≤ c.stop := by
  induction ranges generalizing a with
  | nil => exact fun m hm => ⟨m, hm, Nat.le_refl _, Nat.le_refl _⟩
  | cons b ranges ih =>
    have hab := (pairwise_cons.1 h).1 b mem_cons_self
    rw [coalesce]
    split
    · obtain ⟨⟨c, hc, hstart, hstop⟩, hrest⟩ :=
        forall_mem_cons.1 (ih (descends_join h))
      refine forall_mem_cons.2 ⟨⟨c, hc, ?_, ?_⟩,
        forall_mem_cons.2 ⟨⟨c, hc, hstart, ?_⟩, hrest⟩⟩
      · exact Nat.le_trans hstart hab.1
      · exact Nat.le_trans (Nat.le_max_left _ _) hstop
      · exact Nat.le_trans (Nat.le_max_right _ _) hstop
    · refine forall_mem_cons.2 ⟨⟨a, mem_cons_self, Nat.le_refl _, Nat.le_refl _⟩, fun m hm => ?_⟩
      obtain ⟨c, hc, hcm⟩ := ih (pairwise_cons.1 h).2 m hm
      exact ⟨c, mem_cons_of_mem _ hc, hcm⟩

theorem coalesce_ends : ∀ c ∈ coalesce a ranges, (∃ m ∈ a :: ranges, m.start = c.start)
      ∧ ∃ m ∈ a :: ranges, m.stop = c.stop := by
  induction ranges generalizing a with
  | nil => exact fun c hc => ⟨⟨c, hc, rfl⟩, c, hc, rfl⟩
  | cons b ranges ih =>
    intro c hc
    rw [coalesce] at hc
    split at hc
    · obtain ⟨⟨m, hm, hstart⟩, m', hm', hstop⟩ := ih c hc
      constructor
      · obtain rfl | hm := mem_cons.1 hm
        · exact ⟨b, by simp, hstart⟩
        · exact ⟨m, by simp [hm], hstart⟩
      · obtain rfl | hm' := mem_cons.1 hm'
        · -- the later end of the two
          rcases Nat.le_total a.stop b.stop with hab | hab
          · exact ⟨b, by simp, (Nat.max_eq_right hab).symm.trans hstop⟩
          · exact ⟨a, by simp, (Nat.max_eq_left hab).symm.trans hstop⟩
        · exact ⟨m', by simp [hm'], hstop⟩
    · obtain rfl | hc := mem_cons.1 hc
      · exact ⟨⟨c, mem_cons_self, rfl⟩, c, mem_cons_self, rfl⟩
      · obtain ⟨⟨m, hm, hstart⟩, m', hm', hstop⟩ := ih c hc
        exact ⟨⟨m, mem_cons_of_mem _ hm, hstart⟩, m', mem_cons_of_mem _ hm', hstop⟩

theorem laterFirst_trans (a b c : Range) (hab : laterFirst a b)
    (hbc : laterFirst b c) : laterFirst a c := by
  simp only [laterFirst, Bool.or_eq_true, Bool.and_eq_true, decide_eq_true_eq] at *
  omega

theorem laterFirst_total (a b : Range) : (laterFirst a b || laterFirst b a) := by
  simp only [laterFirst, Bool.or_eq_true, Bool.and_eq_true, decide_eq_true_eq]
  omega

theorem descends_mergeSort
    (h : ∀ r ∈ ranges, ∀ r' ∈ ranges, r'.start ≤ r.start → r'.stop ≤ r.stop) :
    (ranges.mergeSort laterFirst).Pairwise Descends := by
  have hsorted := pairwise_mergeSort laterFirst_trans laterFirst_total ranges
  have hmem := fun r => (mergeSort_perm ranges laterFirst).mem_iff (a := r)
  refine hsorted.imp_of_mem fun {a b} ha hb hab => ?_
  have hstart : b.start ≤ a.start := by
    simp only [laterFirst, Bool.or_eq_true, Bool.and_eq_true, decide_eq_true_eq] at hab
    omega
  exact ⟨hstart, h a ((hmem a).1 ha) b ((hmem b).1 hb) hstart⟩

/-- What is found may come in any order; `a :: ranges` is the same,
sorted. -/
theorem coalesce_cut {found : List Range} (replacement : Strng)
    (h : (a :: ranges).Pairwise Descends) (hfound : ∀ r, r ∈ a :: ranges ↔ r ∈ found)
    (hin : ∀ r ∈ found, r.start ≤ r.stop ∧ r.stop ≤ text.toList.length) :
    Cut found replacement text ((coalesce a ranges).foldl
      (fun text range => replaceRange text range replacement) text) := by
  have hin : ∀ r ∈ a :: ranges, r.start ≤ r.stop ∧ r.stop ≤ text.toList.length :=
    fun r hr => hin r ((hfound r).1 hr)
  have horder := inOrder_coalesce h (fun r hr => (hin r hr).1) (hin a mem_cons_self).2
  refine ⟨(coalesce a ranges).reverse, horder, fun m hm => ?_, fun c hc => ?_, ?_⟩
  · obtain ⟨c, hc, hcm⟩ := coalesce_covers h m ((hfound m).2 hm)
    exact ⟨c, mem_reverse.2 hc, hcm⟩
  · obtain ⟨⟨m, hm, hstart⟩, m', hm', hstop⟩ := coalesce_ends c (mem_reverse.1 hc)
    exact ⟨⟨m, (hfound m).1 hm, hstart⟩, m', (hfound m').1 hm', hstop⟩
  · rw [← foldr_reverse, foldr_replaceRange, foldr_replace horder]

theorem maskRecognized_cut {results : List RecognizerResult} (replacement : Strng)
    (hin : ∀ r ∈ results, r.start ≤ r.stop ∧ r.stop ≤ text.toList.length)
    (hinside : ∀ r ∈ results, ∀ r' ∈ results, r'.start ≤ r.start → r'.stop ≤ r.stop) :
    Cut (results.map fun r => ⟨r.start, r.stop⟩) replacement text
      (maskRecognized text results replacement) := by
  have hperm := mergeSort_perm (results.map fun r => (⟨r.start, r.stop⟩ : Range)) laterFirst
  have hsorted : ((results.map fun r =>
      (⟨r.start, r.stop⟩ : Range)).mergeSort laterFirst).Pairwise Descends :=
    descends_mergeSort (by simpa using hinside)
  unfold maskRecognized
  split
  · rename_i hnone
    rw [hnone] at hperm
    rw [← hperm.nil_eq]
    exact cut_nil replacement text
  · rename_i a ranges hsome
    rw [hsome] at hperm hsorted
    exact coalesce_cut replacement hsorted (fun r => hperm.mem_iff) (by simpa using hin)

-- ======== rules

/-- The text after the rules, one after the other: each one masks what it
finds in the text that the ones before have left. -/
inductive MaskedBy (e : Engine P) : List (RegexRule P) → Strng → Strng → Prop
  | nil (text : Strng) : MaskedBy e [] text text
  | cons {rule : RegexRule P} {rules : List (RegexRule P)}
      {text mid text' : Strng}
      (cut : Cut (rule.matches e text) (rule.replacement e text) text mid)
      (rest : MaskedBy e rules mid text') : MaskedBy e (rule :: rules) text text'

def Matches (e : Engine P) (rules : List (RegexRule P)) (text : Strng) : Prop :=
  ∃ rule ∈ rules, rule.matches e text ≠ []

theorem matches_cons {rule : RegexRule P} {rules : List (RegexRule P)} :
    Matches e (rule :: rules) text ↔ rule.matches e text ≠ [] ∨ Matches e rules text := by
  simp [Matches]

theorem guardLoop_cons (he : e.Sound) (action : Action) (rule : RegexRule P)
    (rules : List (RegexRule P)) (text : Strng) (modified : Bool) :
    rule.matches e text = [] ∧ guardLoop e action (rule :: rules) text modified
        = guardLoop e action rules text modified ∨ rule.matches e text ≠ [] ∧ (action = .reject
          ∧ guardLoop e action (rule :: rules) text modified = some .reject ∨ action = .mask
          ∧ ∃ mid, Cut (rule.matches e text) (rule.replacement e text) text mid
            ∧ guardLoop e action (rule :: rules) text modified
              = guardLoop e action rules mid true) := by
  cases rule with
  | builtin b =>
    rw [guardLoop, RegexRule.matches, RegexRule.replacement]
    have hcut := fun replacement => maskRecognized_cut replacement
      (he.inText b text) (he.notInside b text)
    cases hfound : e.recognizer b text with
    | nil => exact .inl ⟨rfl, rfl⟩
    | cons first results =>
      rw [hfound] at hcut
      refine .inr ⟨cons_ne_nil _ _, ?_⟩
      cases action with
      | reject => exact .inl ⟨rfl, rfl⟩
      | mask => exact .inr ⟨rfl, _, hcut _, rfl⟩
  | regex p =>
    rw [guardLoop, RegexRule.matches]
    have hcut := maskMatches_cut (he.findIter p text)
    cases hfound : e.findIter p text with
    | nil => exact .inl ⟨rfl, rfl⟩
    | cons range ranges =>
      rw [hfound] at hcut
      refine .inr ⟨cons_ne_nil _ _, ?_⟩
      cases action with
      | reject => exact .inl ⟨rfl, rfl⟩
      | mask => exact .inr ⟨rfl, _, hcut, rfl⟩

theorem guardLoop_reject (he : e.Sound) (rules : List (RegexRule P)) (text : Strng) :
    Matches e rules text ∧ guardLoop e .reject rules text false = some .reject
    ∨ ¬ Matches e rules text ∧ guardLoop e .reject rules text false = none := by
  induction rules with
  | nil => exact .inr ⟨nofun, rfl⟩
  | cons rule rules ih =>
    rw [matches_cons]
    obtain ⟨hno, heq⟩ | ⟨hsome, ⟨-, heq⟩ | ⟨h, -⟩⟩ :=
      guardLoop_cons he .reject rule rules text false
    · rw [heq, hno]
      simpa using ih
    · exact .inl ⟨.inl hsome, heq⟩
    · cases h

/-- The loop that masks: without a match nothing is done, and the text that
comes out has been masked by every rule. -/
theorem guardLoop_mask (he : e.Sound) (rules : List (RegexRule P))
    (text : Strng) (modified : Bool) :
    ∃ text', MaskedBy e rules text text' ∧ ((modified ∨ Matches e rules text)
          ∧ guardLoop e .mask rules text modified = some (.mask text')
        ∨ modified = false ∧ ¬ Matches e rules text ∧ text' = text
          ∧ guardLoop e .mask rules text modified = none) := by
  induction rules generalizing text modified with
  | nil =>
    refine ⟨text, .nil text, ?_⟩
    cases modified with
    | true => exact .inl ⟨.inl rfl, rfl⟩
    | false => exact .inr ⟨rfl, nofun, rfl, rfl⟩
  | cons rule rules ih =>
    rw [matches_cons]
    obtain ⟨hno, heq⟩ | ⟨hsome, ⟨h, -⟩ | ⟨-, mid, hcut, heq⟩⟩ :=
      guardLoop_cons he .mask rule rules text modified
    · obtain ⟨text', hmasked, h⟩ := ih text modified
      refine ⟨text', .cons (hno ▸ cut_nil _ text) hmasked, ?_⟩
      rw [heq, hno]
      simpa using h
    · cases h
    · obtain ⟨text', hmasked, ⟨-, h⟩ | ⟨h, -⟩⟩ := ih mid true
      · exact ⟨text', .cons hcut hmasked, .inl ⟨.inr (.inl hsome), heq.trans h⟩⟩
      · cases h

/-- What the guard makes of a text. -/
def guardedText (e : Engine P) (rgx : RegexRules P) (text : Strng) : Strng :=
  match applyPromptGuardRegex e text rgx with
  | some (.mask content) => content
  | some .reject | none => text

theorem guardedText_masked (he : e.Sound) (rules : List (RegexRule P)) (text : Strng) :
    MaskedBy e rules text (guardedText e ⟨.mask, rules⟩ text) := by
  obtain ⟨text', hmasked, ⟨-, h⟩ | ⟨-, -, rfl, h⟩⟩ := guardLoop_mask he rules text false
  · rwa [guardedText, applyPromptGuardRegex, h]
  · rwa [guardedText, applyPromptGuardRegex, h]

end AgentGateway.Llm.Guard
