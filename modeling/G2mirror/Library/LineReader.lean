import Mathlib.Data.List.Basic

/-!
# Reading a stream line by line

A reader buffers what arrives in chunks and hands out one result for each
terminated piece that decodes to one. A call may be dropped whenever it waits
for a chunk. The results depend on the stream alone, neither on how it was cut
into chunks nor on the calls that were dropped.
-/

namespace LineReader

variable {β ρ : Type*} [DecidableEq β]

/-- What one read gives: at least one element. -/
abbrev Chunk (β : Type*) := { chunk : List β // chunk ≠ [] }

/-- A reader and what will arrive before the stream ends. -/
structure Reader (β : Type*) where
  buf : List β
  arrivals : List (Chunk β)

/-- What a call comes to. -/
inductive Outcome (ρ : Type*)
  | message (result : ρ)
  | closed
  /-- The call was dropped at its next read. -/
  | cancelled

variable (sep : β) (decode : List β → Option ρ)

/-- The terminated pieces of a stream whose first elements are `line`. -/
def pieces (line : List β) : List β → List (List β)
  | [] => []
  | b :: bs => if b = sep then line :: pieces [] bs else pieces (line ++ [b]) bs

/-- The results of a stream. -/
def results (stream : List β) : List ρ := (pieces sep [] stream).filterMap decode

/-- Take lines out of a buffer until one has a result. What is left stays buffered. -/
def pop (line : List β) : List β → Option ρ × List β
  | [] => (none, line)
  | b :: bs =>
    if b = sep then
      match decode line with
      | some result => (some result, bs)
      | none => pop [] bs
    else pop (line ++ [b]) bs

/-- The loop of a call that is dropped when it waits for one more than `patience` reads. -/
def nextLoop : ℕ → List β → List (Chunk β) → Outcome ρ × Reader β
  | patience, buf, arrivals =>
    match pop sep decode [] buf with
    | (some result, buf) => (.message result, ⟨buf, arrivals⟩)
    | (none, buf) =>
      match patience, arrivals with
      | 0, _ => (.cancelled, ⟨buf, arrivals⟩)
      | _ + 1, [] => (.closed, ⟨buf, []⟩)
      | patience + 1, chunk :: arrivals => nextLoop patience (buf ++ chunk.val) arrivals

/-- One call. -/
def next (patience : ℕ) (r : Reader β) : Outcome ρ × Reader β :=
  nextLoop sep decode patience r.buf r.arrivals

/-- The results of calls with these patiences, and whether the stream was closed in the end. -/
def receive (call : ℕ → Reader β → Outcome ρ × Reader β) : List ℕ → Reader β → List ρ × Bool
  | [], _ => ([], false)
  | patience :: calls, r =>
    match call patience r with
    | (.message result, r) =>
      let (rest, closed) := receive call calls r
      (result :: rest, closed)
    | (.closed, _) => ([], true)
    | (.cancelled, r) => receive call calls r

/-- What a reader has buffered and what will arrive. -/
def Reader.unread (r : Reader β) : List β := r.buf ++ r.arrivals.flatMap Subtype.val

variable {sep decode}

/-- Elements without a terminator go to the line. -/
theorem pieces_append {part : List β} (hpart : sep ∉ part) (line rest : List β) :
    pieces sep line (part ++ rest) = pieces sep (line ++ part) rest := by
  induction part generalizing line with
  | nil => simp
  | cons b part ih =>
    rw [List.mem_cons, not_or] at hpart
    rw [List.cons_append, pieces, if_neg (Ne.symm hpart.1), ih hpart.2, List.append_assoc]
    rfl

/-- Two streams one after the other, where the first one is terminated. -/
theorem pieces_sep_append (line front back : List β) :
    pieces sep line (front ++ sep :: back) =
      pieces sep line (front ++ [sep]) ++ pieces sep [] back := by
  induction front generalizing line with
  | nil => simp [pieces]
  | cons b front ih =>
    rw [List.cons_append, List.cons_append, pieces, pieces]
    split_ifs
    · rw [ih, List.cons_append]
    · exact ih _

/-- The pieces of a stream so far are the first ones of the whole. -/
theorem prefix_pieces (line front back : List β) :
    pieces sep line front <+: pieces sep line (front ++ back) := by
  induction front generalizing line with
  | nil => exact List.nil_prefix
  | cons b front ih =>
    rw [List.cons_append, pieces, pieces]
    split_ifs
    · exact (List.prefix_cons_inj line).mpr (ih [])
    · exact ih _

/-- The pieces of a terminated text are what it is split into. -/
theorem pieces_terminated (line text : List β) :
    pieces sep line (text ++ [sep]) = (text.splitOn sep).modifyHead (line ++ ·) := by
  induction text generalizing line with
  | nil => simp [pieces]
  | cons b text ih =>
    rw [List.cons_append, pieces, List.splitOn_cons_eq_if_modifyHead]
    by_cases hb : b = sep
    · rw [if_pos hb, ih, if_pos (beq_iff_eq.mpr hb), List.modifyHead_cons, List.append_nil]
      exact congrArg (line :: ·) (congrFun List.modifyHead_id _)
    · rw [if_neg hb, ih, if_neg (mt beq_iff_eq.mp hb), List.modifyHead_modifyHead]
      congr 1
      funext part
      simp

/-- A result that is taken out of the buffer is the first one of the stream. -/
theorem pop_some {line buf buf' : List β} {result : ρ}
    (hpop : pop sep decode line buf = (some result, buf')) (more : List β) :
    (pieces sep line (buf ++ more)).filterMap decode =
      result :: results sep decode (buf' ++ more) := by
  induction buf generalizing line with
  | nil => simp [pop] at hpop
  | cons b bs ih =>
    rw [List.cons_append, pieces]
    unfold pop at hpop
    split_ifs at hpop ⊢ with hsep
    · cases hline : decode line with
      | some x =>
        simp only [hline, Prod.mk.injEq, Option.some.injEq] at hpop
        obtain ⟨rfl, rfl⟩ := hpop
        rw [List.filterMap_cons_some hline]
        rfl
      | none =>
        simp only [hline] at hpop
        rw [List.filterMap_cons_none hline]
        exact ih hpop
    · exact ih hpop

/-- Without a result in the buffer, only lines that have none were taken out. -/
theorem pop_none {line buf buf' : List β} (hpop : pop sep decode line buf = (none, buf'))
    (hline : sep ∉ line) (more : List β) :
    sep ∉ buf' ∧
      (pieces sep line (buf ++ more)).filterMap decode = results sep decode (buf' ++ more) := by
  induction buf generalizing line with
  | nil =>
    obtain rfl : line = buf' := congrArg Prod.snd hpop
    refine ⟨hline, ?_⟩
    rw [results, pieces_append hline]
    rfl
  | cons b bs ih =>
    rw [List.cons_append, pieces]
    unfold pop at hpop
    split_ifs at hpop ⊢ with hsep
    · cases hresult : decode line with
      | some x => simp [hresult] at hpop
      | none =>
        simp only [hresult] at hpop
        rw [List.filterMap_cons_none hresult]
        exact ih hpop List.not_mem_nil
    · apply ih hpop
      simpa [hline] using Ne.symm hsep

/-- What a call does to the results that are still to come. -/
structure Progress (patience : ℕ) (r : Reader β) (outcome : Outcome ρ) (r' : Reader β) : Prop where
  message : ∀ result, outcome = .message result →
    results sep decode r.unread = result :: results sep decode r'.unread
  closed : outcome = .closed → results sep decode r.unread = []
  cancelled : outcome = .cancelled → results sep decode r.unread = results sep decode r'.unread ∧
    r'.arrivals.length + patience = r.arrivals.length
  fewer : r'.arrivals.length ≤ r.arrivals.length

/-- A call hands out the next result, or leaves all of them to come. -/
theorem nextLoop_progress (patience : ℕ) (buf : List β) (arrivals : List (Chunk β)) :
    @Progress β ρ _ sep decode patience ⟨buf, arrivals⟩
      (nextLoop sep decode patience buf arrivals).1
      (nextLoop sep decode patience buf arrivals).2 := by
  induction patience generalizing buf arrivals with
  | zero =>
    unfold nextLoop
    split
    · rename_i result buf' hpop
      refine ⟨?_, by rintro ⟨⟩, by rintro ⟨⟩, Nat.le_refl _⟩
      rintro _ ⟨⟩
      exact pop_some hpop _
    · rename_i buf' hpop
      refine ⟨by rintro _ ⟨⟩, by rintro ⟨⟩, fun _ => ⟨?_, rfl⟩, Nat.le_refl _⟩
      exact (pop_none hpop List.not_mem_nil _).2
  | succ patience ih =>
    unfold nextLoop
    split
    · rename_i result buf' hpop
      refine ⟨?_, by rintro ⟨⟩, by rintro ⟨⟩, Nat.le_refl _⟩
      rintro _ ⟨⟩
      exact pop_some hpop _
    · rename_i buf' hpop
      obtain ⟨hrest, hsame⟩ := pop_none hpop List.not_mem_nil (arrivals.flatMap Subtype.val)
      have hstream : results sep decode (Reader.unread ⟨buf, arrivals⟩) =
          results sep decode (buf' ++ arrivals.flatMap Subtype.val) := hsame
      cases arrivals with
      | nil =>
        refine ⟨by rintro _ ⟨⟩, fun _ => ?_, by rintro ⟨⟩, Nat.le_refl _⟩
        rw [hstream, List.flatMap_nil, results, pieces_append hrest]
        rfl
      | cons chunk arrivals =>
        have hnext := ih (buf' ++ chunk.val) arrivals
        have hunread : results sep decode (Reader.unread ⟨buf, chunk :: arrivals⟩) =
            results sep decode (Reader.unread ⟨buf' ++ chunk.val, arrivals⟩) := by
          rw [hstream, Reader.unread, List.flatMap_cons, List.append_assoc]
        refine ⟨?_, ?_, ?_, Nat.le_trans hnext.fewer (Nat.le_succ _)⟩
        · rw [hunread]
          exact hnext.message
        · rw [hunread]
          exact hnext.closed
        · intro hcancelled
          obtain ⟨hsame, hcount⟩ := hnext.cancelled hcancelled
          refine ⟨hunread.trans hsame, ?_⟩
          rw [List.length_cons, ← hcount, Nat.add_assoc]

/-- The results of any calls are the first results of the stream: all of them
once a call was not dropped at the end, which the last of enough calls is. -/
theorem receive_spec (calls : List ℕ) (r : Reader β) :
    (receive (next sep decode) calls r).1 <+: results sep decode r.unread ∧
      ((receive (next sep decode) calls r).2 = true →
        (receive (next sep decode) calls r).1 = results sep decode r.unread) ∧
      ((results sep decode r.unread).length + r.arrivals.length < calls.countP (0 < ·) →
        (receive (next sep decode) calls r).2 = true) := by
  induction calls generalizing r with
  | nil => simp [receive]
  | cons patience calls ih =>
    have hcall :
        Progress patience r (next sep decode patience r).1 (next sep decode patience r).2 :=
      nextLoop_progress patience r.buf r.arrivals
    have hcount : (patience :: calls).countP (0 < ·) ≤ calls.countP (0 < ·) + min patience 1 := by
      rw [List.countP_cons]
      cases patience with
      | zero => simp
      | succ patience => simp
    unfold receive
    split
    · rename_i result r' hnext
      rw [hnext] at hcall
      obtain ⟨hfirst, hall, henough⟩ := ih r'
      rw [hcall.message result rfl]
      refine ⟨(List.prefix_cons_inj result).mpr hfirst, ?_, ?_⟩
      · intro hclosed
        exact congrArg (result :: ·) (hall hclosed)
      · intro hlt
        have hfewer : r'.arrivals.length ≤ r.arrivals.length := hcall.fewer
        rw [List.length_cons] at hlt
        apply henough
        dsimp only at hlt
        omega
    · rename_i r' hnext
      rw [hnext] at hcall
      rw [hcall.closed rfl]
      exact ⟨List.prefix_rfl, fun _ => rfl, fun _ => rfl⟩
    · rename_i r' hnext
      rw [hnext] at hcall
      obtain ⟨hsame, hreads⟩ := hcall.cancelled rfl
      obtain ⟨hfirst, hall, henough⟩ := ih r'
      rw [hsame]
      refine ⟨hfirst, hall, fun hlt => henough ?_⟩
      dsimp only at hlt hreads
      omega

end LineReader
