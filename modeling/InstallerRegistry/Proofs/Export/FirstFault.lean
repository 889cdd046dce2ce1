import InstallerRegistry.Proofs.Export.Deletions

/-!
# The first fault of an export

An export is read from its first line on, so a fault that is found in it is the first one: the lines
before it are an export without a fault, and the lines behind it have not been looked at
(`exists_of_contentsOfLines_eq_error`).

This is about logical lines, and a fault names a physical one. A logical line is a stretch of
physical lines, from one in front of which nothing goes on up to the first one that does not go on,
or up to the end of the text (`IsLogicalLine`). Cutting a text before or behind such a stretch cuts
its logical lines at the same place (`exists_isLogicalLine`). Only behind a line that the text
breaks off there is no such cut, since more lines would belong to it.
-/

namespace InstallerRegistry.Export

/-! ## Logical lines among physical ones -/

/-- Do the physical lines **break off** inside of a logical line? -/
def BreaksOff (physical : List Text) : Prop :=
  (pendingAfter 1 none physical).isSome

/-- Are the physical lines behind the first `i`, up to the `k`-th, **one logical line**? It starts
where no other one goes on, it goes on up to its last physical line, and it ends there, unless it is
the text that ends. -/
structure IsLogicalLine (physical : List Text) (i k : Nat) : Prop where
  lt : i < k
  le : k ≤ physical.length
  starts : ¬ BreaksOff (physical.take i)
  goesOn : ∀ j, i < j → j < k → BreaksOff (physical.take j)
  ends : k = physical.length ∨ ¬ BreaksOff (physical.take k)

/-- The first `k` physical lines make up the logical line `line` together with the line `pending`
that goes on, and `rest` is made up by those behind them. -/
structure StartsWithLine (number : Nat) (pending : Option Line) (physical : List Text) (line : Line)
    (rest : List Line) (k : Nat) : Prop where
  le : k ≤ physical.length
  pos : pending = none → 0 < k
  number_eq : line.number = (pending.getD ⟨number, []⟩).number
  joined : joinFrom number pending (physical.take k) = [line]
  rest_eq : rest = joinFrom (number + k) none (physical.drop k)
  goesOn : ∀ j, 0 < j → j < k → (pendingAfter number pending (physical.take j)).isSome
  ends : k = physical.length ∨ pendingAfter number pending (physical.take k) = none

/-- **The first of the logical lines** is made up by physical lines at the front. -/
theorem exists_startsWithLine {number : Nat} {pending : Option Line} {physical : List Text}
    {line : Line} {rest : List Line} (h : joinFrom number pending physical = line :: rest) :
    ∃ k, StartsWithLine number pending physical line rest k := by
  induction physical generalizing number pending with
  | nil =>
    cases pending with
    | none => exact absurd h nofun
    | some p =>
      cases h
      exact ⟨0, le_rfl, nofun, rfl, rfl, rfl, nofun, .inl rfl⟩
  | cons p physical ih =>
    rw [joinFrom] at h
    by_cases hcontinues : ((pending.getD ⟨number, []⟩).extend p).continues
    · rw [if_pos hcontinues] at h
      obtain ⟨k, hk⟩ := ih h
      have hjoin : ∀ physical, joinFrom number pending (p :: physical)
          = joinFrom (number + 1) (some ((pending.getD ⟨number, []⟩).extend p).dropMark) physical :=
        fun _ => if_pos hcontinues
      have hpending : ∀ physical, pendingAfter number pending (p :: physical)
          = pendingAfter (number + 1)
            (some ((pending.getD ⟨number, []⟩).extend p).dropMark) physical := fun _ => by
        rw [pendingAfter, if_pos hcontinues]
      refine ⟨k + 1, Nat.succ_le_succ hk.le, fun _ => Nat.succ_pos k, hk.number_eq, ?_, ?_, ?_, ?_⟩
      · rw [List.take_succ_cons, hjoin, hk.joined]
      · rw [List.drop_succ_cons, Nat.add_comm k 1, ← Nat.add_assoc]
        exact hk.rest_eq
      · rintro (_ | j) hpos hlt
        · exact absurd hpos (Nat.lt_irrefl 0)
        · rw [List.take_succ_cons, hpending]
          rcases Nat.eq_zero_or_pos j with rfl | hj
          · rfl
          · exact hk.goesOn j hj (Nat.lt_of_succ_lt_succ hlt)
      · rw [List.take_succ_cons, hpending, List.length_cons, Nat.succ_inj]
        exact hk.ends
    · rw [if_neg hcontinues] at h
      cases h
      refine ⟨1, Nat.succ_le_succ (Nat.zero_le _), fun _ => Nat.one_pos, rfl, if_neg hcontinues,
        rfl, fun j hpos hlt => absurd hlt (Nat.not_lt.2 hpos), .inr ?_⟩
      show pendingAfter number pending [p] = none
      rw [pendingAfter, if_neg hcontinues]
      rfl

/-- Whether lines break off does not depend on where they are counted from. -/
theorem breaksOff_iff (number : Nat) {physical : List Text} :
    BreaksOff physical ↔ (pendingAfter number none physical).isSome := by
  have hcounted : ∀ n, (pendingAfter n none physical).isSome
      = (pendingAfter 0 none physical).isSome := by
    intro n
    have hlater := pendingAfter_later n 0 none physical
    rw [Nat.zero_add, Option.map_none] at hlater
    rw [hlater, Option.isSome_map]
  rw [BreaksOff, hcounted, hcounted number]

theorem not_breaksOff_iff (number : Nat) {physical : List Text} :
    ¬ BreaksOff physical ↔ pendingAfter number none physical = none := by
  rw [breaksOff_iff number, Option.not_isSome_iff_eq_none]

theorem pendingAfter_append (number : Nat) (pending : Option Line) (physical behind : List Text) :
    pendingAfter number pending (physical ++ behind)
      = pendingAfter (number + physical.length) (pendingAfter number pending physical) behind := by
  induction physical generalizing number pending with
  | nil => rfl
  | cons p physical ih =>
    have hlength : number + (p :: physical).length = number + 1 + physical.length := by
      rw [List.length_cons]
      omega
    rw [List.cons_append, pendingAfter, pendingAfter, hlength]
    exact ih _ _

/-- Lines behind others that do not break off do so if they do alone. -/
theorem breaksOff_append_iff {physical : List Text} (h : ¬ BreaksOff physical)
    (behind : List Text) : BreaksOff (physical ++ behind) ↔ BreaksOff behind := by
  rw [BreaksOff, pendingAfter_append, (not_breaksOff_iff 1).1 h, breaksOff_iff]

/-- A logical line of the lines behind a place is one of all of them. -/
theorem IsLogicalLine.of_drop {physical : List Text} {n i k : Nat} (hn : n ≤ physical.length)
    (hwhole : ¬ BreaksOff (physical.take n)) (h : IsLogicalLine (physical.drop n) i k) :
    IsLogicalLine physical (n + i) (n + k) := by
  have htake : ∀ j, BreaksOff (physical.take (n + j)) ↔ BreaksOff ((physical.drop n).take j) := by
    intro j
    rw [List.take_add, breaksOff_append_iff hwhole]
  have hlength : n + (physical.drop n).length = physical.length := by
    rw [List.length_drop]
    omega
  refine ⟨Nat.add_lt_add_left h.lt n, ?_, mt (htake i).1 h.starts, ?_, ?_⟩
  · have hle := h.le
    omega
  · intro j hij hjk
    obtain ⟨j, rfl⟩ := Nat.exists_eq_add_of_le (Nat.le_of_add_right_le hij.le)
    exact (htake j).2 (h.goesOn j (Nat.lt_of_add_lt_add_left hij) (Nat.lt_of_add_lt_add_left hjk))
  · rcases h.ends with hk | hk
    · exact .inl (by rw [hk, hlength])
    · exact .inr (mt (htake k).1 hk)

/-- **A logical line** is a stretch of physical lines, and where the text is cut before or behind
it, so are the logical lines. -/
theorem exists_isLogicalLine {number : Nat} {physical : List Text} {before behind : List Line}
    {line : Line} (h : joinFrom number none physical = before ++ line :: behind) :
    ∃ i k, line.number = number + i ∧ IsLogicalLine physical i k
      ∧ joinFrom number none (physical.take i) = before
      ∧ joinFrom number none (physical.take k) = before ++ [line] := by
  induction before generalizing number physical with
  | nil =>
    obtain ⟨k, hk⟩ := exists_startsWithLine h
    refine ⟨0, k, hk.number_eq, ⟨hk.pos rfl, hk.le, Bool.false_ne_true, ?_, ?_⟩, rfl, hk.joined⟩
    · exact fun j hpos hlt => (breaksOff_iff number).2 (hk.goesOn j hpos hlt)
    · exact hk.ends.imp_right (not_breaksOff_iff number).2
  | cons first before ih =>
    obtain ⟨n, hn⟩ := exists_startsWithLine h
    have hne : n ≠ physical.length := by
      rintro rfl
      have hrest := hn.rest_eq
      rw [List.drop_length] at hrest
      exact absurd hrest (by simp [joinFrom])
    have hpending : pendingAfter number none (physical.take n) = none := hn.ends.resolve_left hne
    have htake : ∀ j, joinFrom number none (physical.take (n + j))
        = first :: joinFrom (number + n) none ((physical.drop n).take j) := by
      intro j
      rw [List.take_add, joinFrom_append hpending, hn.joined, List.length_take_of_le hn.le]
      rfl
    obtain ⟨i, k, hnumber, hline, hbefore, hbehind⟩ := ih hn.rest_eq.symm
    refine ⟨n + i, n + k, ?_, hline.of_drop hn.le ((not_breaksOff_iff number).2 hpending), ?_, ?_⟩
    · rw [hnumber, Nat.add_assoc]
    · rw [htake, hbefore]
    · rw [htake, hbehind]
      rfl

/-! ## Runs -/

section Run

variable {version : Version}

theorem number_of_sectionOf {line : Line} {n : Nat} {fault : Fault}
    (h : sectionOf line = .error (.exportSyntax n fault)) : line.number = n := by
  unfold sectionOf at h
  split at h
  next =>
    cases h
    rfl
  next => exact absurd h nofun
  next =>
    dsimp only at h
    split at h
    next => exact absurd h nofun
    next =>
      cases h
      rfl

theorem number_of_valueIn {hive : Hive} {key : Text} {line : Line} {n : Nat} {fault : Fault}
    (h : valueIn version hive key line = .error (.exportSyntax n fault)) : line.number = n := by
  unfold valueIn at h
  split at h
  next =>
    cases h
    rfl
  next =>
    split at h
    next e _ =>
      cases e with
      | fault f =>
        cases h
        rfl
      | unsupported v => exact absurd h nofun
    next => exact absurd h nofun
    next => exact absurd h nofun

/-- The fault of a line is at the number of the line. -/
theorem number_of_step {s : Section} {line : Line} {n : Nat} {fault : Fault}
    (h : step version s line = .error (.exportSyntax n fault)) : line.number = n := by
  unfold step at h
  split at h
  next => exact absurd h nofun
  next =>
    split at h
    next => exact number_of_sectionOf h
    next =>
      cases s with
      | outside =>
        cases h
        rfl
      | deleted => exact absurd h nofun
      | key hive key =>
        obtain hvalue | ⟨_, _, h⟩ := bind_eq_error_iff.1 h
        · exact number_of_valueIn hvalue
        · exact absurd h nofun

/-- **A run that fails** has failed at one of its lines: the lines before it give something, and
the lines behind it do not matter. -/
theorem exists_of_contentsFrom_eq_error {s : Section} {lines : List Line} {n : Nat} {fault : Fault}
    (h : contentsFrom version s lines = .error (.exportSyntax n fault)) :
    ∃ before line behind, lines = before ++ line :: behind ∧ line.number = n
      ∧ (∃ c, contentsFrom version s before = .ok c)
      ∧ ∀ behind', contentsFrom version s (before ++ line :: behind')
        = .error (.exportSyntax n fault) := by
  induction lines generalizing s with
  | nil => exact absurd h nofun
  | cons first rest ih =>
    obtain hstep | ⟨⟨s', here⟩, hstep, h⟩ := bind_eq_error_iff.1 h
    · refine ⟨[], first, rest, rfl, number_of_step hstep, ⟨{}, rfl⟩, fun behind' => ?_⟩
      exact bind_eq_error_iff.2 (.inl hstep)
    · obtain hrest | ⟨_, _, h⟩ := bind_eq_error_iff.1 h
      · obtain ⟨before, line, behind, rfl, hnumber, ⟨c, hc⟩, hfails⟩ := ih hrest
        have hcons := contentsFrom_cons hstep
        refine ⟨first :: before, line, behind, rfl, hnumber, ⟨here ++ c, ?_⟩, fun behind' => ?_⟩
        · rw [hcons, hc]
          rfl
        · rw [List.cons_append, hcons, hfails]
          rfl
      · exact absurd h nofun

end Run

/-! ## Exports -/

/-- What is behind the header of an export, and what may be before it. -/
theorem contentsOfLines_of_header {blank : List Line} {header : Line} {version : Version}
    (hblank : ∀ line ∈ blank, line.text.isEmpty = true)
    (hversion : Version.ofHeader? header.text = some version) (body : List Line) :
    contentsOfLines (blank ++ header :: body) = contentsFrom version .outside body := by
  have hempty : header.text.isEmpty = false := by
    rw [← Version.header_eq_of_ofHeader? hversion]
    cases version <;> rfl
  unfold contentsOfLines
  rw [List.dropWhile_append_of_pos hblank, List.dropWhile_cons_of_neg (by simp [hempty])]
  dsimp only
  rw [hversion]

/-- **An export that fails** behind its header has failed at one of its lines. -/
theorem exists_of_contentsOfLines_eq_error {lines : List Line} {n : Nat} {fault : Fault}
    (h : contentsOfLines lines = .error (.exportSyntax n fault)) (hfault : fault ≠ .missingHeader) :
    ∃ before line behind, lines = before ++ line :: behind ∧ line.number = n
      ∧ (∃ c, contentsOfLines before = .ok c)
      ∧ ∀ behind', contentsOfLines (before ++ line :: behind')
        = .error (.exportSyntax n fault) := by
  have hblank : ∀ line ∈ lines.takeWhile (·.text.isEmpty), line.text.isEmpty = true :=
    fun _ => List.mem_takeWhile_imp
  have hlines : lines.takeWhile (·.text.isEmpty) ++ lines.dropWhile (·.text.isEmpty) = lines :=
    List.takeWhile_append_dropWhile
  unfold contentsOfLines at h
  split at h
  next =>
    cases h
    exact absurd rfl hfault
  next header body hbody =>
    split at h
    next =>
      cases h
      exact absurd rfl hfault
    next version hversion =>
      obtain ⟨before, line, behind, rfl, hnumber, ⟨c, hc⟩, hfails⟩ :=
        exists_of_contentsFrom_eq_error h
      have hread := contentsOfLines_of_header hblank hversion
      refine ⟨lines.takeWhile (·.text.isEmpty) ++ header :: before, line, behind, ?_, hnumber,
        ⟨c, (hread before).trans hc⟩, fun behind' => ?_⟩
      · rw [List.append_assoc, List.cons_append, ← hbody, hlines]
      · rw [List.append_assoc, List.cons_append, hread, hfails]

/-- **The first fault.** A fault of an export that is found behind its header is in a logical line,
and it is at the number of the physical line that this starts on. The physical lines before it are
an export without a fault. And unless the text breaks off in the logical line, any text with the
same physical lines up to its end has the same fault. -/
theorem Contents.ofText_firstFault {t : Text} {n : Nat} {fault : Fault}
    (h : Contents.ofText t = .error (.exportSyntax n fault)) (hfault : fault ≠ .missingHeader) :
    ∃ i k, n = i + 1 ∧ IsLogicalLine (physicalLines t) i k
      ∧ (∃ c, Contents.ofText (textOfLines ((physicalLines t).take i)) = .ok c)
      ∧ (¬ BreaksOff ((physicalLines t).take k) →
        ∀ t', (physicalLines t').take k = (physicalLines t).take k →
          Contents.ofText t' = .error (.exportSyntax n fault)) := by
  obtain ⟨before, line, behind, hlines, rfl, ⟨c, hc⟩, hfails⟩ :=
    exists_of_contentsOfLines_eq_error h hfault
  obtain ⟨i, k, hnumber, hline, hbefore, hupto⟩ := exists_isLogicalLine hlines
  refine ⟨i, k, hnumber.trans (Nat.add_comm 1 i), hline, ⟨c, ?_⟩, fun hwhole t' ht' => ?_⟩
  · have hfree : ∀ p ∈ (physicalLines t).take i, '\n' ∉ p := fun p hp =>
      lineFeed_notMem_of_mem_physicalLines (List.mem_of_mem_take hp)
    rw [Contents.ofText, linesOf, physicalLines_textOfLines hfree, hbefore, hc]
  · rw [not_breaksOff_iff 1, ← ht'] at hwhole
    rw [Contents.ofText, linesOf, ← List.take_append_drop k (physicalLines t'),
      joinFrom_append hwhole, ht', hupto, List.append_assoc]
    exact hfails _

/-- An export with a fault in the second half of a broken value, and a value that the text breaks
off. -/
def brokenLines : List Text :=
  ["REGEDIT4".toList, "[HKCU\\a]".toList, "\"A\"=hex:0,\\".toList, " ?".toList,
    "\"B\"=hex:0,\\".toList]

/-- The fault is where the value starts, and the last line has no part in it. -/
theorem Contents.ofText_firstFault_brokenLines :
    Contents.ofText (textOfLines brokenLines)
      = .error (.exportSyntax 3 (.invalidHex (.invalidDigit 63 1)))
    ∧ ∃ i k, 3 = i + 1 ∧ IsLogicalLine (physicalLines (textOfLines brokenLines)) i k
      ∧ (∃ c, Contents.ofText (textOfLines ((physicalLines (textOfLines brokenLines)).take i))
        = .ok c)
      ∧ (¬ BreaksOff ((physicalLines (textOfLines brokenLines)).take k) →
        ∀ t', (physicalLines t').take k = (physicalLines (textOfLines brokenLines)).take k →
          Contents.ofText t' = .error (.exportSyntax 3 (.invalidHex (.invalidDigit 63 1)))) := by
  have hfails : Contents.ofText (textOfLines brokenLines)
      = .error (.exportSyntax 3 (.invalidHex (.invalidDigit 63 1))) := rfl
  exact ⟨hfails, ofText_firstFault hfails nofun⟩

/-- A fault in a value that the text breaks off is gone once there are more lines. -/
example : Contents.ofText (textOfLines (brokenLines.take 3))
      = .error (.exportSyntax 3 (.invalidHex .oddLength))
    ∧ Contents.ofText (textOfLines (brokenLines.take 3 ++ [['0']]))
      = .ok { entries := [{ key := ['a'], name := ['A'], value := some (.binary [0]) }] } :=
  ⟨rfl, rfl⟩

end InstallerRegistry.Export
