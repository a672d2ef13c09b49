import Mathlib.Algebra.Order.BigOperators.Group.List
import Mathlib.Data.List.TakeWhile
import Axona.Pubsub.Pages
import Axona.Pubsub.Step

/-! # Every entry once, and no group torn

The frames of an export tile it: each begins where the one before ended. What decides where a frame
ends is the first entry that does not fit; if it shares its stamp with the entries before it, the
frame ends before all of them, unless they are out of bounds together. All this is by the builder's
count, which takes every deletion for 160: the bound on the text that is sent is kept just where
the count tells what fits. -/

namespace Axona

open Library

variable {s : Snapshot} {i j next : Item} {is l later before behind : List Item} {bytes : Nat}

/-- What items count for. -/
def itemBytes (l : List Item) : Nat := (l.map Item.size).sum

@[simp] theorem itemBytes_nil : itemBytes [] = 0 := rfl

@[simp] theorem itemBytes_cons (i : Item) (l : List Item) :
    itemBytes (i :: l) = i.size + itemBytes l := by
  simp [itemBytes]

@[simp] theorem itemBytes_append (l l' : List Item) :
    itemBytes (l ++ l') = itemBytes l + itemBytes l' := by
  simp [itemBytes]

/-- What the group of equal stamps around a place counts for. -/
def groupBytes (ts : Int) (before behind : List Item) : Nat :=
  itemBytes ((before.reverse.takeWhile fun i => i.ts = ts) ++ behind.takeWhile fun i => i.ts = ts)

theorem itemBytes_reverse (l : List Item) : itemBytes l.reverse = itemBytes l := by
  simp [itemBytes, List.sum_reverse]

/-! ### Where a frame is full -/

theorem fill_le_length (bytes : Nat) (l : List Item) : fill bytes l ≤ l.length := by
  induction l generalizing bytes with
  | nil => exact Nat.le_refl 0
  | cons i is ih =>
    rw [fill]
    split
    · exact Nat.zero_le _
    · exact Nat.succ_le_succ (ih _)

/-- What fits, fits. -/
theorem fill_fits (h : bytes ≤ replayChunkBytes) :
    bytes + itemBytes (l.take (fill bytes l)) ≤ replayChunkBytes := by
  induction l generalizing bytes with
  | nil => simpa [fill] using h
  | cons i is ih =>
    rw [fill]
    split
    · simpa using h
    next hfit =>
    have hrest := ih (Nat.le_of_not_lt hfit)
    rw [List.take_succ_cons, itemBytes_cons]
    omega

/-- The next one does not. -/
theorem fill_over (h : l.drop (fill bytes l) = next :: later) :
    replayChunkBytes < bytes + itemBytes (l.take (fill bytes l)) + next.size := by
  induction l generalizing bytes with
  | nil => simp [fill] at h
  | cons i is ih =>
    rw [fill] at h ⊢
    split at h
    next hover =>
      rw [if_pos hover]
      cases h
      simpa using hover
    next hfit =>
    rw [if_neg hfit]
    have hrest := ih h
    rw [List.take_succ_cons, itemBytes_cons]
    omega

theorem fill_of_over (h : replayChunkBytes < bytes) (l : List Item) : fill bytes l = 0 := by
  cases l with
  | nil => rfl
  | cons i is =>
    rw [fill, if_pos]
    omega

/-! ### Where a frame ends -/

/-- The length of the run of equal stamps that ends a list. -/
def runLength (ts : Int) (l : List Item) : Nat := (l.reverse.takeWhile fun i => i.ts = ts).length

/-- A frame ends where it is full, or before the run of the entry that did not fit. -/
theorem frameLength_cases (i : Item) (is : List Item) :
    ∃ k, k = fill i.size is + 1 ∧ ((frameLength (i :: is) = k ∧
        ∀ next later, (i :: is).drop k = next :: later → 0 < runLength next.ts ((i :: is).take k) →
          replayChunkBytes < groupBytes next.ts ((i :: is).take k) ((i :: is).drop k))
      ∨ ∃ next later, (i :: is).drop k = next :: later
        ∧ groupBytes next.ts ((i :: is).take k) ((i :: is).drop k) ≤ replayChunkBytes
        ∧ frameLength (i :: is) = max 1 (k - runLength next.ts ((i :: is).take k))) := by
  refine ⟨_, rfl, ?_⟩
  cases hdrop : (i :: is).drop (fill i.size is + 1) with
  | nil =>
    refine .inl ⟨?_, fun next later h => by cases h⟩
    simp only [frameLength, hdrop]
  | cons next later =>
    have hgroup : ∀ before : List Item, groupBytes next.ts before (next :: later)
        = (((before.reverse.takeWhile fun x => x.ts = next.ts)
          ++ next :: later.takeWhile fun x => x.ts = next.ts).map Item.size).sum := by
      intro before
      simp [groupBytes, itemBytes]
    by_cases hback : 0 < runLength next.ts ((i :: is).take (fill i.size is + 1))
        ∧ groupBytes next.ts ((i :: is).take (fill i.size is + 1)) (next :: later)
          ≤ replayChunkBytes
    · refine .inr ⟨next, later, rfl, hback.2, ?_⟩
      rw [hgroup] at hback
      simp only [frameLength, hdrop]
      exact if_pos hback
    · refine .inl ⟨?_, fun next' later' h hrun => ?_⟩
      · rw [hgroup] at hback
        simp only [frameLength, hdrop]
        exact if_neg hback
      · cases h
        exact Nat.lt_of_not_le fun hle => hback ⟨hrun, hle⟩

/-- What is asked of the length of a frame. -/
structure Ends (l : List Item) (k : Nat) : Prop where
  pos : 0 < k
  le : k ≤ l.length
  fits : itemBytes (l.take k) ≤ replayChunkBytes
    ∨ ∃ i, l.take k = [i] ∧ replayChunkBytes < i.size
  whole : ∀ i j, (l.take k).getLast? = some i → (l.drop k).head? = some j → i.ts = j.ts →
    replayChunkBytes < groupBytes j.ts (l.take k) (l.drop k)

theorem runLength_pos {ts : Int} (h : l.getLast? = some i) (hts : i.ts = ts) :
    0 < runLength ts l := by
  rw [← List.head?_reverse] at h
  cases hrev : l.reverse with
  | nil =>
    rw [hrev] at h
    cases h
  | cons i' is =>
    rw [hrev] at h
    cases h
    simp [runLength, hrev, hts]

/-- A list before its last run, and that run. -/
theorem split_run (ts : Int) (l : List Item) :
    ∃ l₁ l₂, l = l₁ ++ l₂ ∧ l₂.length = runLength ts l ∧ (∀ i ∈ l₂, i.ts = ts)
      ∧ (l.reverse.takeWhile fun i => i.ts = ts) = l₂.reverse
      ∧ ∀ i, l₁.getLast? = some i → i.ts ≠ ts := by
  refine ⟨(l.reverse.dropWhile fun i => i.ts = ts).reverse,
    (l.reverse.takeWhile fun i => i.ts = ts).reverse, ?_, ?_, ?_, ?_, ?_⟩
  · rw [← List.reverse_append, List.takeWhile_append_dropWhile, List.reverse_reverse]
  · rw [List.length_reverse]
    rfl
  · intro i hi
    simpa using List.mem_takeWhile_imp (List.mem_reverse.mp hi)
  · rw [List.reverse_reverse]
  · intro i hi
    rw [List.getLast?_reverse] at hi
    have hnot := List.head?_dropWhile_not (fun i : Item => decide (i.ts = ts)) l.reverse
    rw [hi] at hnot
    simpa using hnot

/-- **Where a frame ends.** -/
theorem frameLength_ends (i : Item) (is : List Item) : Ends (i :: is) (frameLength (i :: is)) := by
  obtain ⟨k, hk, hcases⟩ := frameLength_cases i is
  have hle : k ≤ (i :: is).length := by
    rw [hk, List.length_cons]
    exact Nat.succ_le_succ (fill_le_length _ _)
  have htake : (i :: is).take k = i :: is.take (fill i.size is) := by
    rw [hk, List.take_succ_cons]
  have hfits : itemBytes ((i :: is).take k) ≤ replayChunkBytes
      ∨ k = 1 ∧ replayChunkBytes < i.size := by
    rcases Nat.lt_or_ge replayChunkBytes i.size with hover | hfit
    · rw [fill_of_over hover] at hk
      exact .inr ⟨hk, hover⟩
    · rw [htake, itemBytes_cons]
      exact .inl (fill_fits hfit)
  rcases hcases with ⟨heq, hwhole⟩ | ⟨next, later, hdrop, hgroup, heq⟩
  · rw [heq]
    refine ⟨by omega, hle, hfits.imp_right ?_, fun i' j hi' hj hts => ?_⟩
    · rintro ⟨rfl, hover⟩
      exact ⟨i, rfl, hover⟩
    · cases hdrop : (i :: is).drop k with
      | nil =>
        rw [hdrop] at hj
        cases hj
      | cons next later =>
        rw [hdrop] at hj
        cases hj
        rw [← hdrop]
        exact hwhole j later hdrop (runLength_pos hi' hts)
  · -- the run that the next entry belongs to moves to the next frame
    obtain ⟨l₁, l₂, hl, hlen, hall, hrev, hlast⟩ := split_run next.ts ((i :: is).take k)
    have hover : replayChunkBytes < itemBytes ((i :: is).take k) + next.size := by
      rcases hfits with hfit | ⟨rfl, hsize⟩
      · rw [htake, itemBytes_cons]
        rw [hk, List.drop_succ_cons] at hdrop
        exact fill_over hdrop
      · simp only [List.take_succ_cons, List.take_zero, itemBytes_cons, itemBytes_nil]
        omega
    have hrun : l₂ ≠ (i :: is).take k := by
      intro hl₂
      have hbig : itemBytes ((i :: is).take k) + next.size ≤ groupBytes next.ts ((i :: is).take k)
          ((i :: is).drop k) := by
        rw [groupBytes, hrev, hl₂, hdrop]
        rw [itemBytes_append, itemBytes_reverse, List.takeWhile_cons_of_pos (by simp),
          itemBytes_cons]
        omega
      omega
    have hlenk : ((i :: is).take k).length = k := by rw [List.length_take, Nat.min_eq_left hle]
    have hlen₁ : l₁.length = k - runLength next.ts ((i :: is).take k) := by
      rw [← hlen, ← hlenk, hl, List.length_append, Nat.add_sub_cancel]
    have hpos : 0 < l₁.length := by
      rw [List.length_pos_iff]
      rintro rfl
      exact hrun hl.symm
    have hsplit : i :: is = l₁ ++ (l₂ ++ next :: later) := by
      rw [← List.append_assoc, ← hl, ← hdrop, List.take_append_drop]
    have heq' : frameLength (i :: is) = l₁.length := by
      rw [heq, ← hlen₁]
      exact Nat.max_eq_right hpos
    rw [heq', hsplit]
    refine ⟨hpos, by simp, ?_, fun i' j hi' hj hts => ?_⟩
    · rw [List.take_left]
      rcases hfits with hfit | ⟨hk1, hsize⟩
      · rw [hl, itemBytes_append] at hfit
        exact .inl (Nat.le_trans (Nat.le_add_right _ _) hfit)
      have hone : l₁ = [i] := by
        rw [hk1, List.take_succ_cons, List.take_zero] at hl
        rcases List.append_eq_cons_iff.mp hl.symm with ⟨rfl, -⟩ | ⟨l, rfl, hnil⟩
        · cases hpos
        · rw [(List.append_eq_nil_iff.mp hnil.symm).1]
      exact .inr ⟨i, hone, hsize⟩
    · rw [List.take_left] at hi'
      rw [List.drop_left] at hj
      -- what follows is of the run, and what is in front of it is not
      have hjts : j.ts = next.ts := by
        cases l₂ with
        | nil =>
          cases hj
          rfl
        | cons j' l₂ =>
          cases hj
          exact hall j List.mem_cons_self
      exact absurd (hts.trans hjts) (hlast i' hi')

/-! ### From frame to frame -/

/-- The cursors of a list of distinct ones lead behind what was sent. -/
theorem itemsAfter_cursor (h : ((before ++ i :: behind).map Item.cursor).Nodup) :
    itemsAfter (before ++ i :: behind) i.cursor = behind := by
  have hne : ∀ i' ∈ before, i'.cursor ≠ i.cursor := by
    intro i' hi' heq
    rw [List.map_append, List.map_cons, List.nodup_append] at h
    exact h.2.2 _ (List.mem_map_of_mem hi') _ List.mem_cons_self heq
  change ((before ++ i :: behind).dropWhile fun x => x.cursor ≠ i.cursor).drop 1 = behind
  rw [List.dropWhile_append_of_pos (by simpa using hne), List.dropWhile_cons_of_neg (by simp)]
  rfl

/-- The frames from a cursor on, what is left there, and how they come about. -/
inductive Serves (s : Snapshot) : Cursor → List Item → List Page → Prop where
  | last {c rest p} (hcursor : p.cursor = c) (hitems : p.items = rest) (hmore : p.more = false)
      (hends : rest = [] ∨ Ends rest p.items.length) : Serves s c rest [p]
  | more {c rest p ps} (hcursor : p.cursor = c) (hmore : p.more = true)
      (hne : rest ≠ []) (hends : Ends (p.items ++ rest) p.items.length)
      (h : Serves s p.last rest ps) : Serves s c (p.items ++ rest) (p :: ps)

theorem serves_pages (hdistinct : (s.items.map Item.cursor).Nodup) (n : Nat) (c : Cursor)
    (before rest : List Item) (hsplit : s.items = before ++ rest)
    (hafter : itemsAfter s.items c = rest) (hn : rest.length < n) :
    Serves s c rest (s.pages n c) := by
  induction n generalizing c before rest with
  | zero => cases hn
  | succ n ih =>
    rw [Snapshot.pages]
    cases rest with
    | nil =>
      have hmore : (s.page c).more = false := by simp [Snapshot.page, hafter]
      rw [if_neg (by simp [hmore])]
      exact .last rfl (by simp [Snapshot.page, hafter]) hmore (.inl rfl)
    | cons i is =>
      have hends := frameLength_ends i is
      have hitems : (s.page c).items = (i :: is).take (frameLength (i :: is)) := by
        simp [Snapshot.page, hafter]
      have hlen : (s.page c).items.length = frameLength (i :: is) := by
        rw [hitems, List.length_take, Nat.min_eq_left hends.le]
      by_cases hmore : frameLength (i :: is) < (i :: is).length
      · have hyes : (s.page c).more = true := by
          simp only [Snapshot.page, hafter, List.length_take, Nat.min_eq_left hends.le]
          exact decide_eq_true hmore
        have hrest : i :: is = (s.page c).items ++ (i :: is).drop (frameLength (i :: is)) := by
          rw [hitems, List.take_append_drop]
        have hne : (s.page c).items ≠ [] := by
          rw [← List.length_pos_iff, hlen]
          exact hends.pos
        -- the frame ends at its last entry, and the next one begins behind it
        obtain ⟨l, x, hlast⟩ := List.eq_nil_or_concat (s.page c).items |>.resolve_left hne
        have hcursor : (s.page c).last = x.cursor := by
          have hpage : (s.page c).last = ((s.page c).items.getLast?).elim c Item.cursor := rfl
          rw [hpage, hlast, List.concat_eq_append, List.getLast?_concat]
          rfl
        rw [List.concat_eq_append] at hlast
        have hsplit' : s.items = (before ++ l) ++ x :: (i :: is).drop (frameLength (i :: is)) := by
          rw [hsplit]
          conv_lhs => rw [hrest, hlast]
          simp
        have hnext : itemsAfter s.items (s.page c).last
            = (i :: is).drop (frameLength (i :: is)) := by
          rw [hcursor, hsplit']
          exact itemsAfter_cursor (hsplit' ▸ hdistinct)
        have hshort : ((i :: is).drop (frameLength (i :: is))).length < n := by
          have hpos := hends.pos
          rw [List.length_drop]
          omega
        rw [if_pos hyes]
        have hserves := ih (s.page c).last (before ++ (s.page c).items) _
          (by rw [hsplit, List.append_assoc, ← hrest]) hnext hshort
        rw [hrest]
        refine .more rfl hyes ?_ ?_ hserves
        · rw [Ne, List.drop_eq_nil_iff, not_le]
          exact hmore
        · rw [← hrest, hlen]
          exact hends
      · have hall : (s.page c).items = i :: is := by
          rw [hitems, List.take_of_length_le (Nat.le_of_not_lt hmore)]
        have hno : (s.page c).more = false := by
          simp only [Snapshot.page, hafter, List.length_take, Nat.min_eq_left hends.le]
          exact decide_eq_false hmore
        rw [if_neg (by simp [hno])]
        exact .last rfl hall hno (.inr (hlen ▸ hends))

namespace Serves

variable {c : Cursor} {rest : List Item} {ps : List Page}

section

variable (h : Serves s c rest ps)
include h

theorem follow : ps.map (·.cursor) = c :: ps.dropLast.map (·.last) := by
  induction h with
  | last hcursor => simp [hcursor]
  | more hcursor _ _ _ h ih =>
    cases h with
    | last hcursor' => simp [hcursor, hcursor']
    | more hcursor' => simpa [hcursor] using ih

theorem ends :
    ps.map (·.more) = List.replicate (ps.length - 1) true ++ [false] := by
  induction h with
  | last _ _ hmore => simp [hmore]
  | @more c rest p ps _ hmore _ _ h ih =>
    have hpos : 0 < ps.length := by
      cases h with
      | last => exact Nat.zero_lt_one
      | more => exact Nat.succ_pos _
    rw [List.map_cons, ih, hmore, List.length_cons, Nat.add_sub_cancel, ← List.cons_append,
      ← List.replicate_succ, Nat.sub_add_cancel hpos]

theorem whole : ps.flatMap (·.items) = rest := by
  induction h with
  | last _ hitems => simp [hitems]
  | more _ _ _ _ _ ih => rw [List.flatMap_cons, ih]

theorem fits :
    ∀ p ∈ ps, itemBytes p.items ≤ replayChunkBytes
      ∨ ∃ i, p.items = [i] ∧ replayChunkBytes < i.size := by
  induction h with
  | @last c rest p _ hitems _ hends =>
    intro p' hp'
    rw [List.mem_singleton.mp hp']
    rcases hends with hnil | hends
    · refine .inl ?_
      rw [hitems, hnil]
      exact Nat.zero_le _
    · have hfits := hends.fits
      rwa [← hitems, List.take_length] at hfits
  | more _ _ _ hends _ ih =>
    intro p' hp'
    rcases List.mem_cons.mp hp' with rfl | hmem
    · have hfits := hends.fits
      rwa [List.take_left] at hfits
    · exact ih p' hmem

end

theorem groupBytes_le (ts : Int) (l before behind : List Item) :
    groupBytes ts before behind ≤ groupBytes ts (l ++ before) behind := by
  rw [groupBytes, groupBytes, itemBytes_append, itemBytes_append, List.reverse_append]
  apply Nat.add_le_add_right
  rw [List.takeWhile_append]
  split
  · rw [itemBytes_append]
    obtain ⟨l', hl'⟩ :=
      List.takeWhile_prefix (fun i : Item => decide (i.ts = ts)) (l := before.reverse)
    conv_rhs => rw [← hl', itemBytes_append]
    omega
  · exact Nat.le_refl _

theorem groups (h : Serves s c rest ps) (ps₁ ps₂ : List Page) (i j : Item)
    (hps : ps = ps₁ ++ ps₂) (hi : (ps₁.flatMap (·.items)).getLast? = some i)
    (hj : (ps₂.flatMap (·.items)).head? = some j) (hts : i.ts = j.ts) :
    replayChunkBytes < groupBytes j.ts (ps₁.flatMap (·.items)) (ps₂.flatMap (·.items)) := by
  induction h generalizing ps₁ with
  | last =>
    rcases List.append_eq_cons_iff.mp hps.symm with ⟨rfl, -⟩ | ⟨ps', rfl, hnil⟩
    · cases hi
    · rw [(List.append_eq_nil_iff.mp hnil.symm).2] at hj
      cases hj
  | @more c rest p ps _ _ _ hends h ih =>
    rcases List.append_eq_cons_iff.mp hps.symm with ⟨rfl, -⟩ | ⟨ps', rfl, hps'⟩
    · cases hi
    rw [List.flatMap_cons] at hi ⊢
    have hrest : ps'.flatMap (·.items) ++ ps₂.flatMap (·.items) = rest := by
      rw [← List.flatMap_append, ← hps', h.whole]
    cases hempty : ps'.flatMap (·.items) with
    | nil =>
      rw [hempty] at hi hrest
      rw [List.append_nil] at hi ⊢
      rw [List.nil_append] at hrest
      have hwhole := hends.whole i j
      rw [List.take_left, List.drop_left, ← hrest] at hwhole
      exact hwhole hi hj hts
    | cons x xs =>
      rw [← hempty]
      refine Nat.lt_of_lt_of_le (ih ps' hps' ?_) (groupBytes_le _ _ _ _)
      rw [List.getLast?_append] at hi
      rw [hempty] at hi ⊢
      simpa using hi

end Serves

/-! ### The loser's answers -/

namespace Node

/-- A pull at the cursor that was sent last gets its frame, and the export notes where it ends. -/
theorem mergeDataFrame_page {n : Node} {q : MergePull} {ρ : RoleRef} {x : ExportRef} {c : Cursor}
    (hlast : (n.exports.get x).lastCursorSent = some c) (hq : q.cursor = some c) :
    n.mergeDataFrame q ρ x = (n.modifyExport x fun m => { m with
          lastCursorSent := some ((n.exports.get x).snapshot.page c).last }).send
        (n.pageFrame q ρ x ((n.exports.get x).snapshot.page c)) := by
  simp only [mergeDataFrame, hlast, hq, ne_eq, not_true_eq_false, if_false]
  rfl

/-- **The pulls of an export** get its frames, one after the other. -/
theorem sent_answerPulls (q : MergePull) (ρ : RoleRef) (x : ExportRef) (k : Nat) (n : Node)
    (c : Cursor) (hlast : (n.exports.get x).lastCursorSent = some c) :
    (n.answerPulls q ρ x (((n.exports.get x).snapshot.pages k c).map (·.cursor))).sent
      = (((n.exports.get x).snapshot.pages k c).map (n.pageFrame q ρ x)).reverse ++ n.sent := by
  induction k generalizing n c with
  | zero => rfl
  | succ k ih =>
    set p := (n.exports.get x).snapshot.page c with hp
    have hstep : n.mergeDataFrame { q with cursor := some p.cursor } ρ x
        = (n.modifyExport x fun m => { m with lastCursorSent := some p.last }).send
          (n.pageFrame q ρ x p) :=
      mergeDataFrame_page hlast rfl
    set n' := (n.modifyExport x fun m => { m with lastCursorSent := some p.last }).send
      (n.pageFrame q ρ x p) with hn'
    have hget : n'.exports.get x = { n.exports.get x with lastCursorSent := some p.last } := by
      simp [hn', send, modifyExport]
    have hframe : n'.pageFrame q ρ x = n.pageFrame q ρ x := by
      funext p'
      simp only [pageFrame, hget]
      rfl
    rw [Snapshot.pages, ← hp]
    split
    · have hrest := ih n' p.last (by rw [hget])
      rw [hget, hframe] at hrest
      simp only [answerPulls, List.map_cons, List.foldl_cons] at hrest ⊢
      rw [hstep, hrest, List.reverse_cons, List.append_assoc]
      rfl
    · simp only [answerPulls, List.map_cons, List.map_nil, List.foldl_cons, List.foldl_nil]
      rw [hstep]
      rfl

end Node

/-! ### The count and the text -/

@[simp] theorem filterMap_body (l : List Entry) : ((l.map Item.body).filterMap fun i =>
    match i with | .body e => some e | .del _ => none) = l := by
  simp [List.filterMap_map]

@[simp] theorem filterMap_del (l : List Del) : ((l.map Item.del).filterMap fun i =>
    match i with | .del d => some d | .body _ => none) = l := by
  simp [List.filterMap_map]

theorem Serves.tiled {ps : List Page} (h : Serves s .header s.items ps) : Tiled s ps where
  follow := h.follow
  ends := h.ends
  bodies := by
    have hwhole := congrArg (List.filterMap fun i =>
      match i with | Item.body e => some e | .del _ => none) h.whole
    rw [List.filterMap_flatMap, Snapshot.items, List.filterMap_append, filterMap_body] at hwhole
    refine hwhole.trans ?_
    simp [List.filterMap_map]
  dels := by
    have hwhole := congrArg (List.filterMap fun i =>
      match i with | Item.del d => some d | .body _ => none) h.whole
    rw [List.filterMap_flatMap, Snapshot.items, List.filterMap_append, filterMap_del] at hwhole
    refine hwhole.trans ?_
    simp [List.filterMap_map]

/-- The builder's count tells what fits. -/
structure Counted (w : FrameText) (s : Snapshot) : Prop where
  /-- What counts within bounds is within them, but for what is of one group. -/
  fits : ∀ l, l <:+: s.items → itemBytes l ≤ replayChunkBytes →
    w.frame l ≤ replayChunkBytes ∨ OneStamp l
  /-- A group within bounds counts within them. -/
  groups : ∀ l, l <:+: s.items → OneStamp l → w.frame l ≤ replayChunkBytes →
    itemBytes l ≤ replayChunkBytes ∨ l.length ≤ 1

theorem Counted.of_infix {w : FrameText} {s' : Snapshot} (h : Counted w s)
    (hs' : s'.items <:+: s.items) : Counted w s' :=
  ⟨fun l hl => h.fits l (hl.trans hs'), fun l hl => h.groups l (hl.trans hs')⟩

theorem mem_groupItems {ts : Int} (hi : i ∈ groupItems ts before behind) : i.ts = ts := by
  rcases List.mem_append.mp hi with hi | hi
  · simpa using List.mem_takeWhile_imp (List.mem_reverse.mp hi)
  · simpa using List.mem_takeWhile_imp hi

theorem groupItems_infix (ts : Int) (before behind : List Item) :
    groupItems ts before behind <:+: before ++ behind := by
  obtain ⟨l₁, hl₁⟩ := List.takeWhile_prefix (fun i : Item => decide (i.ts = ts))
    (l := before.reverse)
  obtain ⟨l₂, hl₂⟩ := List.takeWhile_prefix (fun i : Item => decide (i.ts = ts)) (l := behind)
  refine ⟨l₁.reverse, l₂, ?_⟩
  have hbefore : l₁.reverse ++ (before.reverse.takeWhile fun i => i.ts = ts).reverse = before := by
    rw [← List.reverse_append, hl₁, List.reverse_reverse]
  rw [groupItems, ← List.append_assoc, hbefore, List.append_assoc, hl₂]

theorem itemBytes_groupItems (ts : Int) (before behind : List Item) :
    itemBytes (groupItems ts before behind) = groupBytes ts before behind := by
  rw [groupItems, groupBytes, itemBytes_append, itemBytes_append, itemBytes_reverse]

/-- A group that a frame ends within has two entries. -/
theorem two_le_groupItems (hi : before.getLast? = some i) (hj : behind.head? = some j)
    (hts : i.ts = j.ts) : 2 ≤ (groupItems j.ts before behind).length := by
  obtain ⟨before', rfl⟩ := List.getLast?_eq_some_iff.mp hi
  obtain ⟨behind', rfl⟩ := List.head?_eq_some_iff.mp hj
  rw [groupItems, List.reverse_append, List.reverse_singleton, List.singleton_append,
    List.takeWhile_cons_of_pos (by simpa using hts), List.takeWhile_cons_of_pos (by simp)]
  simp only [List.reverse_cons, List.length_append, List.length_cons, List.length_nil]
  omega

theorem Serves.paged {w : FrameText} {ps : List Page} (h : Serves s .header s.items ps)
    (hcounted : Counted w s) : Paged w s ps where
  toTiled := h.tiled
  fits p hp := by
    have hinfix : p.items <:+: s.items := by
      obtain ⟨ps₁, ps₂, rfl⟩ := List.append_of_mem hp
      rw [← h.whole, List.flatMap_append, List.flatMap_cons, ← List.append_assoc]
      exact ⟨_, _, rfl⟩
    rcases h.fits p hp with hle | ⟨i, hone, -⟩
    · exact hcounted.fits _ hinfix hle
    · refine .inr fun i' hi' j hj => ?_
      rw [hone] at hi' hj
      rw [List.mem_singleton.mp hi', List.mem_singleton.mp hj]
  groups ps₁ ps₂ i j hps hi hj hts := by
    have hover := h.groups ps₁ ps₂ i j hps hi hj hts
    rw [← itemBytes_groupItems] at hover
    by_contra hle
    have hinfix := groupItems_infix j.ts (ps₁.flatMap (·.items)) (ps₂.flatMap (·.items))
    rw [← List.flatMap_append, ← hps, h.whole] at hinfix
    rcases hcounted.groups _ hinfix
        (fun a ha b hb => (mem_groupItems ha).trans (mem_groupItems hb).symm)
        (Nat.le_of_not_lt hle) with hcount | hlen
    · omega
    · have := two_le_groupItems hi hj hts
      omega

/-- What stands side by side in an export is an export. -/
theorem exists_snapshot (hl : is <:+: s.items) : ∃ s' : Snapshot, s'.items = is := by
  obtain ⟨l₁, l₂, hsplit⟩ := hl
  rw [Snapshot.items, List.append_assoc] at hsplit
  rcases List.append_eq_append_iff.mp hsplit with ⟨l, hbodies, hrest⟩ | ⟨l, -, hdels⟩
  · obtain ⟨b₁, b₂, -, -, rfl⟩ := List.map_eq_append_iff.mp hbodies
    rcases List.append_eq_append_iff.mp hrest with ⟨l', hb, -⟩ | ⟨l', his, hd⟩
    · obtain ⟨b₃, -, -, rfl, -⟩ := List.map_eq_append_iff.mp hb
      exact ⟨⟨b₃, []⟩, by simp [Snapshot.items]⟩
    · obtain ⟨d₁, -, -, rfl, -⟩ := List.map_eq_append_iff.mp hd
      exact ⟨⟨b₂, d₁⟩, by rw [his, Snapshot.items]⟩
  · obtain ⟨-, d₂, -, -, hd₂⟩ := List.map_eq_append_iff.mp hdels
    obtain ⟨d₃, -, -, rfl, -⟩ := List.map_eq_append_iff.mp hd₂
    exact ⟨⟨[], d₃⟩, by simp [Snapshot.items]⟩

theorem fill_eq_length (h : bytes + itemBytes l ≤ replayChunkBytes) : fill bytes l = l.length := by
  induction l generalizing bytes with
  | nil => rfl
  | cons i is ih =>
    rw [itemBytes_cons] at h
    rw [fill, if_neg (by omega), ih (by omega), List.length_cons]

/-- The first frame of what counts within bounds is all of it. -/
theorem page_items (h : itemBytes s.items ≤ replayChunkBytes) :
    (s.page .header).items = s.items := by
  change s.items.take (frameLength s.items) = s.items
  cases hs : s.items with
  | nil => rfl
  | cons i is =>
    rw [hs, itemBytes_cons] at h
    rw [frameLength, fill_eq_length h]
    simp

theorem groupItems_all {ts : Int} (hb : ∀ i ∈ before, i.ts = ts) (hl : ∀ i ∈ later, i.ts = ts) :
    groupItems ts before later = before ++ later := by
  rw [groupItems, List.takeWhile_eq_self_iff.mpr (by simpa using hb),
    List.takeWhile_eq_self_iff.mpr (by simpa using hl), List.reverse_reverse]

/-- Where the parts of an export are paged, the count tells what fits. -/
theorem counted_of_paged {w : FrameText} (hdistinct : (s.items.map Item.cursor).Nodup) {k : Nat}
    (hk : s.items.length < k)
    (h : ∀ s' : Snapshot, s'.items <:+: s.items → Paged w s' (s'.pages k .header)) :
    Counted w s := by
  obtain ⟨k, rfl⟩ := Nat.exists_eq_add_of_lt (Nat.zero_lt_of_lt hk)
  refine ⟨fun l hl hcount => ?_, fun l hl hone htext => ?_⟩ <;> obtain ⟨s', rfl⟩ := exists_snapshot hl
  · rw [← page_items hcount]
    refine (h s' hl).fits _ ?_
    rw [Nat.zero_add, Snapshot.pages]
    split <;> exact List.mem_cons_self
  · by_contra hover
    obtain ⟨hover, hlen⟩ := not_or.mp hover
    have hserves := serves_pages (hdistinct.sublist (hl.sublist.map _)) (0 + k + 1) .header []
      s'.items rfl rfl (Nat.lt_of_le_of_lt hl.length_le hk)
    have hpaged := h s' hl
    generalize s'.pages (0 + k + 1) .header = ps at hserves hpaged
    generalize hitems : s'.items = l at hserves hover hlen htext hone
    cases hserves with
    | @last _ _ p _ hp _ hends =>
      rcases hends with rfl | hends
      · exact hlen (Nat.zero_le 1)
      · have hfits := hends.fits
        rw [hp, List.take_length] at hfits
        rcases hfits with hle | ⟨i, rfl, -⟩
        · exact hover hle
        · exact hlen Nat.le.refl
    | @more _ rest p ps _ _ hne hends hrest =>
      -- the first frame ends within the one group
      have hp : p.items ≠ [] := List.length_pos_iff.mp hends.pos
      obtain ⟨i, hi⟩ := Option.ne_none_iff_exists'.mp (mt List.getLast?_eq_none_iff.mp hp)
      obtain ⟨j, hj⟩ := Option.ne_none_iff_exists'.mp (mt List.head?_eq_none_iff.mp hne)
      have hjmem : j ∈ rest := List.mem_of_mem_head? hj
      have hts : ∀ x ∈ p.items ++ rest, x.ts = j.ts := fun x hx =>
        hone x hx j (List.mem_append_right _ hjmem)
      have hgroup := hpaged.groups [p] ps i j rfl (by simpa using hi) (by rwa [hrest.whole])
        (hts i (List.mem_append_left _ (List.mem_of_getLast? hi)))
      rw [hrest.whole, List.flatMap_singleton,
        groupItems_all (fun x hx => hts x (List.mem_append_left _ hx))
          (fun x hx => hts x (List.mem_append_right _ hx))] at hgroup
      omega

/-- **The frames of an export.** The pulls that follow the cursors come to an end and get every body
and every deletion once, in order. Every part of the export goes out within bounds, with no group
torn that is within them, if and only if the builder's count tells what fits. -/
theorem export_paged_iff (w : FrameText) (n : Node) (q : MergePull) (ρ : RoleRef) (x : ExportRef)
    (hlast : (n.exports.get x).lastCursorSent = some .header)
    (hdistinct : ((n.exports.get x).snapshot.items.map Item.cursor).Nodup) (k : Nat)
    (hk : (n.exports.get x).snapshot.items.length < k) :
    let s := (n.exports.get x).snapshot
    (n.answerPulls q ρ x ((s.pages k .header).map (·.cursor))).sent
        = ((s.pages k .header).map (n.pageFrame q ρ x)).reverse ++ n.sent
      ∧ Tiled s (s.pages k .header)
      ∧ ((∀ s' : Snapshot, s'.items <:+: s.items → Paged w s' (s'.pages k .header))
        ↔ Counted w s) := by
  intro s
  refine ⟨Node.sent_answerPulls q ρ x k n .header hlast,
    (serves_pages hdistinct k .header [] _ rfl rfl hk).tiled, counted_of_paged hdistinct hk,
    fun hcounted s' hs' => ?_⟩
  have hserves := serves_pages (hdistinct.sublist (hs'.sublist.map _)) k .header [] _ rfl rfl
    (Nat.lt_of_le_of_lt hs'.length_le hk)
  exact hserves.paged (hcounted.of_infix hs')

/-- Two bodies of one stamp, a later one, and a deletion. -/
def samplePaged : Snapshot :=
  ⟨[⟨['a'], 1, ⟨60000, none⟩, none⟩, ⟨['b'], 1, ⟨60000, none⟩, none⟩, ⟨['c'], 2, ⟨9, none⟩, none⟩],
    [⟨['d'], some 2, none, none⟩]⟩

/-- A node that was asked for nothing yet but the header. -/
def samplePaging : Node :=
  (Node.boot (sampleWorld 0)).modifyExport 0 fun m =>
    { m with snapshot := samplePaged, lastCursorSent := some .header }

/-- A pull of it. -/
def samplePull : MergePull := ⟨0, 0, 1, none, none, none, false, false, false⟩

/-- A body in its quotes, and 200 for the fields that are no entries. -/
def sampleText : FrameText := ⟨fun j => j.length + 2, 200⟩

theorem export_paged_iff_sample :
    (samplePaging.answerPulls samplePull 0 0
        ((samplePaged.pages 5 .header).map (·.cursor))).sent
        = ((samplePaged.pages 5 .header).map (samplePaging.pageFrame samplePull 0 0)).reverse
          ++ samplePaging.sent
      ∧ Tiled samplePaged (samplePaged.pages 5 .header)
      ∧ ((∀ s' : Snapshot, s'.items <:+: samplePaged.items →
          Paged sampleText s' (s'.pages 5 .header)) ↔ Counted sampleText samplePaged) :=
  export_paged_iff sampleText samplePaging samplePull 0 0 rfl (by decide) 5 (by decide)

/-- A deletion, by its stamp. -/
def stampedKill (k : Nat) : Del :=
  ⟨(List.range 64).map fun b => if k.testBit b then '1' else '0', some k,
    some (List.replicate 64 'f'), some k⟩

/-- A topic of 500 kills, each of its own stamp. -/
def manyKills : Snapshot := ⟨[], (List.range 500).map stampedKill⟩

theorem manyKills_items :
    manyKills.items = (List.range 500).map fun k => .del (stampedKill k) := by
  rw [manyKills, Snapshot.items, List.map_nil, List.nil_append, List.map_map]
  rfl

theorem stampedKill_length (k : Nat) : 200 ≤ sampleText.entry (.del (stampedKill k)) + 1
    + ((Item.del (stampedKill k)).id.length + 2) + 1 := by
  have hkeys : "del".length = 3 ∧ "msgId".length = 5 ∧ "killTs".length = 6 ∧ "signer".length = 6
      ∧ "seq".length = 3 := by decide
  simp only [FrameText.entry, stampedKill, Item.id, objectLength, List.length_map, List.length_range,
    List.length_replicate, Option.elim, Option.map, Option.toList, List.map_append, List.map_cons,
    List.map_nil, List.sum_append, List.sum_cons, List.sum_nil]
  omega

/-- The first frame takes all of them, for they count 80 000, and their text is longer than that. -/
theorem kills_overfill : (manyKills.items.map Item.cursor).Nodup
    ∧ ¬ Paged sampleText manyKills (manyKills.pages 501 .header) := by
  refine ⟨?_, fun h => ?_⟩
  · rw [manyKills_items, List.map_map]
    refine List.Nodup.map (fun a b hab => ?_) List.nodup_range
    cases hab
    rfl
  · have hlen : manyKills.items.length = 500 := by simp [manyKills_items]
    have hcount : itemBytes manyKills.items ≤ replayChunkBytes := by
      have hsum := List.sum_le_card_nsmul (manyKills.items.map Item.size) 160 (by
        rw [manyKills_items, List.map_map]
        simp [Item.size])
      rw [List.length_map, hlen] at hsum
      exact Nat.le_trans hsum (by decide)
    have hfirst : manyKills.page .header ∈ manyKills.pages 501 .header := by
      rw [Snapshot.pages]
      split <;> exact List.mem_cons_self
    rcases h.fits _ hfirst with hle | hone
    · rw [page_items hcount] at hle
      have hsum := List.card_nsmul_le_sum
        (manyKills.items.map fun i => sampleText.entry i + 1 + (i.id.length + 2) + 1) 200 (by
          rw [manyKills_items, List.map_map]
          intro b hb
          obtain ⟨k, -, rfl⟩ := List.mem_map.mp hb
          exact stampedKill_length k)
      rw [List.length_map, hlen] at hsum
      have hover : replayChunkBytes < 500 • 200 := by decide
      rw [FrameText.frame] at hle
      generalize (manyKills.items.map (β := Nat) _).sum = text at hsum hle
      omega
    · have hmem : ∀ k < 500, Item.del (stampedKill k) ∈ (manyKills.page .header).items := by
        intro k hk
        rw [page_items hcount, manyKills_items]
        exact List.mem_map.mpr ⟨k, List.mem_range.mpr hk, rfl⟩
      exact absurd (hone _ (hmem 0 (by decide)) _ (hmem 1 (by decide))) (by decide)

end Axona
