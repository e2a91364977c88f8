import RouteTable.Proofs.Utf8.Decoding

/-!
# The check of UTF-8 texts

A text is checked in a loop that reads one sequence in each turn, byte by byte at positions of the
text. Here the turns are told one by one, and a byte that is read behind the end of the text ends
the check without an answer.

* `sequence_cons_iff`: what is checked of the bytes of a sequence
* `Check.turn_cases`: a turn reads a sequence, or it finds that none begins there
* `Check.exists_iterate_turn_eq`: the loop ends with the answer of `isValid`
* `isValid_iff_exists_encode`: the texts that are accepted, and their scalar values
-/

namespace RouteTable.Utf8

/-! ## What a sequence begins with -/

section

variable {a b : UInt8} {t q s : Bytes}

/-- The first byte tells the length, the others continue it, and the second of three or more fits
the first one. -/
theorem sequence_cons_iff :
    Sequence (a :: t) ↔ sequenceLength a = t.length + 1 ∧ t.all isContinuation ∧
    (2 < sequenceLength a → t.head?.all (allowsSecond a)) := by
  constructor
  · intro h
    cases h with
    | one ha => simp [ha]
    | two ha hb => simp [ha, hb]
    | three ha hb hc => simp [ha, hb, hc, isContinuation_of_allowsSecond hb]
    | four ha hb hc hd => simp [ha, hb, hc, hd, isContinuation_of_allowsSecond hb]
  · rintro ⟨hlength, hall, hsecond⟩
    have hle := sequenceLength_le a
    match t, hlength, hall, hsecond with
    | [], ha, _, _ => exact .one ha
    | [b], ha, hall, _ => exact .two ha (by simpa using hall)
    | [b, c], ha, hall, hsecond =>
      simp only [List.all_cons, List.all_nil, Bool.and_true, Bool.and_eq_true] at hall
      exact .three ha (hsecond (by simp [ha])) hall.2
    | [b, c, d], ha, hall, hsecond =>
      simp only [List.all_cons, List.all_nil, Bool.and_true, Bool.and_eq_true] at hall
      exact .four ha (hsecond (by simp [ha])) hall.2.1 hall.2.2
    | _ :: _ :: _ :: _ :: _, ha, _, _ =>
      simp only [List.length_cons] at ha
      omega

theorem exists_sequence_prefix_iff :
    (∃ q, Sequence q ∧ q.length = sequenceLength a ∧ q <+: a :: t) ↔
    sequenceLength a ≠ 0 ∧ sequenceLength a ≤ t.length + 1 ∧
      (t.take (sequenceLength a - 1)).all isContinuation ∧
      (2 < sequenceLength a → t.head?.all (allowsSecond a)) := by
  constructor
  · rintro ⟨q, hq, hlength, hpre⟩
    obtain ⟨b, u, rfl, -⟩ := hq.eq_cons
    obtain ⟨rfl, r, rfl⟩ := List.cons_prefix_cons.1 hpre
    obtain ⟨-, hall, hsecond⟩ := sequence_cons_iff.1 hq
    rw [← hlength, List.length_cons, Nat.add_sub_cancel, List.take_left, List.length_append]
    refine ⟨by omega, by omega, hall, fun hlong => ?_⟩
    rw [List.head?_append_of_ne_nil _ (List.ne_nil_of_length_pos (by omega))]
    exact hsecond (by rwa [← hlength])
  · rintro ⟨hne, hle, hall, hsecond⟩
    have htake : (t.take (sequenceLength a - 1)).length + 1 = sequenceLength a := by
      rw [List.length_take]
      omega
    refine ⟨a :: t.take (sequenceLength a - 1),
      sequence_cons_iff.2 ⟨htake.symm, hall, fun hlong => ?_⟩, htake,
      List.cons_prefix_cons.2 ⟨rfl, List.take_prefix _ t⟩⟩
    rw [List.head?_take, if_neg (by omega)]
    exact hsecond hlong

theorem isValid_eq_false
    (h : ∀ q, Sequence q → q.length = sequenceLength a → ¬ q <+: a :: t) :
    isValid (a :: t) = false := by
  refine Bool.eq_false_iff.2 fun hv => ?_
  rcases eq_nil_or_sequence hv with hnil | ⟨q, r, hq, -, he⟩
  · exact List.cons_ne_nil a t hnil
  · obtain ⟨b, u, rfl, hlength, -⟩ := hq.eq_cons
    obtain ⟨rfl, -⟩ := List.cons.inj he
    exact h _ hq hlength.symm ⟨r, he.symm⟩

end

/-! ## The loop -/

namespace Check

variable {s rest : Bytes} {pos n : Nat} {lead : UInt8}

theorem continues?_eq (h : pos + n ≤ s.length) :
    continues? s pos n = some (((s.drop pos).take n).all isContinuation) := by
  induction n generalizing pos with
  | zero => rw [continues?, List.take_zero, List.all_nil]
  | succ n ih =>
    have hpos : pos < s.length := by omega
    rw [continues?, List.getElem?_eq_getElem hpos, List.drop_eq_getElem_cons hpos,
      List.take_succ_cons, List.all_cons]
    dsimp only
    rw [ih (by omega)]
    cases isContinuation s[pos] <;> rfl

theorem secondFits?_eq (h : pos + (sequenceLength lead - 1) ≤ s.length) : secondFits? s pos lead =
    some (decide (2 < sequenceLength lead → (s.drop pos).head?.all (allowsSecond lead))) := by
  rw [secondFits?]
  split
  · next hlead =>
    rw [List.head?_drop, List.getElem?_eq_getElem (by omega)]
    simp [hlead]
  · next hlead => simp [hlead]

theorem turn_of_length_le (h : s.length ≤ pos) : turn s (going pos) = done true := by
  rw [turn, if_neg (Nat.not_lt.2 h)]

theorem turn_of_drop_eq (h : s.drop pos = lead :: rest) : turn s (going pos) =
    if sequenceLength lead ≠ 0 ∧ sequenceLength lead ≤ rest.length + 1 ∧
        (rest.take (sequenceLength lead - 1)).all isContinuation ∧
        (2 < sequenceLength lead → rest.head?.all (allowsSecond lead)) then
      going (pos + sequenceLength lead)
    else done false := by
  have hlength : s.length - pos = rest.length + 1 := by
    rw [← List.length_drop, h, List.length_cons]
  have hrest : s.drop (pos + 1) = rest := by rw [← List.tail_drop, h, List.tail_cons]
  have hlead : s[pos]? = some lead := by rw [← List.head?_drop, h, List.head?_cons]
  rw [turn, if_pos (by omega), hlead]
  dsimp only
  by_cases hn : sequenceLength lead = 0 ∨ s.length < pos + sequenceLength lead
  · rw [if_pos hn, if_neg (by omega)]
  · rw [if_neg hn, continues?_eq (by omega), secondFits?_eq (by omega), hrest]
    cases (rest.take (sequenceLength lead - 1)).all isContinuation with
    | false => rw [if_neg fun hc => Bool.false_ne_true hc.2.2.1]
    | true =>
      by_cases hsecond : 2 < sequenceLength lead → rest.head?.all (allowsSecond lead)
      · rw [decide_eq_true hsecond, if_pos ⟨by omega, by omega, rfl, hsecond⟩]
      · rw [decide_eq_false hsecond, if_neg fun hc => hsecond hc.2.2.2]

/-- The position moves by whole sequences. A turn that finds no sequence ends the check, and rightly
so. -/
theorem turn_cases (h : pos < s.length) :
    (∃ q, Sequence q ∧ q <+: s.drop pos ∧ turn s (going pos) = going (pos + q.length)) ∨
      isValid (s.drop pos) = false ∧ turn s (going pos) = done false := by
  have hdrop := List.drop_eq_getElem_cons h
  rw [turn_of_drop_eq hdrop, hdrop]
  by_cases hq : ∃ q, Sequence q ∧ q.length = sequenceLength s[pos] ∧
    q <+: s[pos] :: s.drop (pos + 1)
  · rw [if_pos (exists_sequence_prefix_iff.1 hq)]
    obtain ⟨q, hseq, hlength, hpre⟩ := hq
    exact .inl ⟨q, hseq, hpre, by rw [hlength]⟩
  · rw [if_neg fun hc => hq (exists_sequence_prefix_iff.2 hc)]
    exact .inr ⟨isValid_eq_false fun q hseq hlength hpre => hq ⟨q, hseq, hlength, hpre⟩,
      rfl⟩

/-! ## The run -/

theorem iterate_turn_done (answer : Bool) (n : Nat) : (turn s)^[n] (done answer) = done answer :=
  Function.iterate_fixed rfl n

/-- The loop ends after at most one turn for each byte that is left and one at the end, with the
right answer. -/
theorem exists_iterate_turn_eq (h : pos ≤ s.length) :
    ∃ n ≤ s.length - pos + 1, (turn s)^[n] (going pos) = done (isValid (s.drop pos)) := by
  generalize hleft : s.length - pos = left
  induction left using Nat.strong_induction_on generalizing pos with
  | _ left ih =>
    rcases Nat.eq_or_lt_of_le h with rfl | hlt
    · refine ⟨1, by omega, ?_⟩
      rw [Function.iterate_one, turn_of_length_le (Nat.le_refl _), List.drop_length]
      rfl
    rcases turn_cases hlt with ⟨q, hq, ⟨r, hr⟩, hturn⟩ | ⟨hinvalid, hturn⟩
    · have hne := List.length_pos_iff.2 hq.ne_nil
      have hlength := congrArg List.length hr
      rw [List.length_append, List.length_drop] at hlength
      have hle : pos + q.length ≤ s.length := by omega
      obtain ⟨n, hn, hrun⟩ := ih _ (by omega) hle rfl
      refine ⟨n + 1, by omega, ?_⟩
      have hdrop : s.drop (pos + q.length) = r := by rw [← List.drop_drop, ← hr, List.drop_left]
      rw [Function.iterate_succ_apply, hturn, hrun, hdrop, ← hr, hq.isValid_append]
    · exact ⟨1, by omega, by rw [Function.iterate_one, hturn, hinvalid]⟩

theorem iterate_turn_ne_outside (s : Bytes) (n : Nat) : (turn s)^[n] (going 0) ≠ outside := by
  intro h
  obtain ⟨m, -, hrun⟩ := exists_iterate_turn_eq (Nat.zero_le s.length)
  -- Both states are kept, and so the loop would come to both of them.
  have hdone : (turn s)^[n + m] (going 0) = done (isValid (s.drop 0)) := by
    rw [Function.iterate_add_apply, hrun, iterate_turn_done]
  have houtside : (turn s)^[m + n] (going 0) = outside := by
    rw [Function.iterate_add_apply, h]
    exact Function.iterate_fixed rfl m
  rw [Nat.add_comm, houtside] at hdone
  cases hdone

end Check

/-! ## The texts that are accepted -/

/-- A text is accepted if and only if it is the encoding of a list of scalar values. There is only
one such list, and as many scalar values are counted as it has. The loop that checks the text ends
with this answer, after at most one turn for each byte and one more, and reads no byte that the text
does not have. -/
theorem isValid_iff_exists_encode (s : Bytes) :
    (isValid s ↔ ∃ cs : List Char, s = encode cs) ∧
    (∀ cs ds : List Char, s = encode cs → s = encode ds → cs = ds) ∧
    (∀ cs : List Char, s = encode cs → scalarCount s = cs.length) ∧
    (∃ n ≤ s.length + 1, (Check.turn s)^[n] (.going 0) = .done (isValid s)) ∧
    ∀ n, (Check.turn s)^[n] (.going 0) ≠ .outside := by
  refine ⟨⟨exists_eq_encode_of_isValid, ?_⟩, ?_, ?_, ?_, Check.iterate_turn_ne_outside s⟩
  · rintro ⟨cs, rfl⟩
    exact isValid_encode cs
  · exact fun cs ds hcs hds => encode_injective (hcs.symm.trans hds)
  · rintro cs rfl
    exact scalarCount_encode cs
  · simpa using Check.exists_iterate_turn_eq (Nat.zero_le s.length)

end RouteTable.Utf8
