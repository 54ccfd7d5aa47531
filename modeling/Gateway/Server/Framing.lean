import Gateway.Lib.Occurrences
import Gateway.Server.Charges

/-!
Output accounting and the framing of the upstream stream (`body_iter` of
`gateway/server.py`).

The handler counts `b"data:"` in every chunk as it arrives. A mark that is cut by the end of a
chunk is missed, and one inside a payload is counted, where an event of the stream is a
line that begins with the mark.

* `limiter_streamed`: what is counted is what the tenant's bucket is settled with.
* `actualOutput_framing_iff`: when the count is the number of events without the last one,
  for one way to split a stream and for all of them.
-/

namespace Gateway

open Occurrences

/-- The line ends of an event stream. -/
def isEol (b : UInt8) : Bool := b = 0x0A || b = 0x0D

/-- The lines of a stream that begin with `data:`. -/
def dataEvents (stream : List UInt8) : Nat := leading dataMark isEol stream

/-- The marks that are cut by the end of a chunk. -/
def cutMarks (chunks : List (List UInt8)) : Nat := straddling dataMark chunks

/-- The marks inside the lines of a stream. -/
def inlineMarks (stream : List UInt8) : Nat := inside dataMark isEol stream

theorem countMarks_eq (bytes : List UInt8) : countMarks bytes = occurrences dataMark bytes := by
  induction bytes with
  | nil => rfl
  | cons b rest ih => rw [countMarks, occurrences, ih]

/-- What is counted in the chunks, and what is missed. -/
theorem sum_countMarks (chunks : List (List UInt8)) :
    (chunks.map countMarks).sum + cutMarks chunks = countMarks chunks.flatten := by
  have same : countMarks = occurrences dataMark := funext countMarks_eq
  rw [same, cutMarks, occurrences_flatten]

/-- The events, and what is counted besides. -/
theorem dataEvents_add_inlineMarks (stream : List UInt8) :
    dataEvents stream + inlineMarks stream = countMarks stream := by
  rw [countMarks_eq]
  have plain : ∀ b ∈ dataMark, isEol b = false := by simp [dataMark, isEol]
  exact leading_add_inside plain (by simp [dataMark]) stream

/-! ### The count and the limiter -/

namespace Server

variable {su : Setup} {s : Server} {i : Nat} {req : Request} {r : RouteResult} {code : Nat}

/-- The loop over the chunks. -/
theorem run_chunks {out : Nat} {now : ℚ} (streaming : s.phase i = .streaming req r code out)
    (clock : s.clock ≤ now) (chunks : List (List UInt8)) :
    ∃ s', Machine.run (step su) s (chunks.map fun c => ⟨now, .chunk i (countMarks c)⟩) = some s' ∧
      s'.phase i = .streaming req r code (out + (chunks.map countMarks).sum) ∧
      s'.limiter = s.limiter ∧ s'.clock ≤ now := by
  induction chunks generalizing s out with
  | nil => exact ⟨s, rfl, by simpa using streaming, rfl, clock⟩
  | cons c chunks ih =>
      have first : s.step su ⟨now, .chunk i (countMarks c)⟩ =
          some ({ s with clock := now }.setPhase i (.streaming req r code (out + countMarks c))) := by
        simp only [step, if_pos clock, perform, chunk, streaming]
      obtain ⟨s', reach, phase, limiter, clock'⟩ :=
        ih (s := { s with clock := now }.setPhase i (.streaming req r code (out + countMarks c)))
          (Function.update_self ..) (le_refl now)
      refine ⟨s', ?_, ?_, limiter, clock'⟩
      · rw [List.map_cons, Machine.run, first]
        exact reach
      · rw [phase, List.map_cons, List.sum_cons, Nat.add_assoc]

/-- A stream that is read to its end settles its request with `actual_output`. -/
theorem limiter_streamed {now : ℚ} (streaming : s.phase i = .streaming req r code 0)
    (clock : s.clock ≤ now) (chunks : List (List UInt8)) :
    ∃ s', Machine.run (step su) s (chunks.map (fun c => ⟨now, .chunk i (countMarks c)⟩) ++
        [⟨now, .stop i⟩, ⟨now, .closed i none⟩]) = some s' ∧
      s'.limiter = su.giveBack req (actualOutput chunks) s.limiter := by
  obtain ⟨mid, reach, phase, limiter, clock'⟩ := run_chunks streaming clock chunks
  have stopped : mid.step su ⟨now, .stop i⟩ = some ({ mid with clock := now }.setPhase i
      (.closing req r code (0 + (chunks.map countMarks).sum))) := by
    simp only [step, if_pos clock', perform, stop, phase]
  generalize ended : { mid with clock := now }.setPhase i
    (.closing req r code (0 + (chunks.map countMarks).sum)) = last at stopped
  have closing : last.phase i = .closing req r code (chunks.map countMarks).sum := by
    rw [← ended, Nat.zero_add]
    exact Function.update_self ..
  have on_time : last.clock ≤ now := by
    rw [← ended]
    exact le_refl now
  have kept : last.limiter = s.limiter := by
    rw [← ended]
    exact limiter
  obtain ⟨s', closed⟩ : ∃ s', { last with clock := now }.closed su i now none = some s' := by
    simp only [closed, closing]
    exact ⟨_, rfl⟩
  refine ⟨s', ?_, ?_⟩
  · rw [Machine.run_append_eq_some]
    have settled : last.step su ⟨now, .closed i none⟩ = some s' := by
      simp only [step, if_pos on_time, perform, closed]
    refine ⟨mid, reach, ?_⟩
    simp only [Machine.run, stopped, settled, Option.bind_some]
  · rw [limiter_closed (s := { last with clock := now })
      (by rw [closing]; rfl) (by simp) closed, ← kept]
    rfl

end Server

/-! ### When the count is the number of events -/

/-- **Framing.** Split in one way, a stream is counted right exactly if as many marks are cut as
stand inside lines, or there is at most one in each of the two counts. Over all ways to split it,
the count is the same and right exactly if the mark occurs at most once. -/
theorem actualOutput_framing_iff (stream : List UInt8) :
    (∀ chunks, chunks.flatten = stream →
      (actualOutput chunks = dataEvents stream - 1 ↔
        cutMarks chunks = inlineMarks stream ∨
          countMarks stream ≤ cutMarks chunks + 1 ∧ countMarks stream ≤ inlineMarks stream + 1)) ∧
    ((∀ chunks chunks', chunks.flatten = stream → chunks'.flatten = stream →
        actualOutput chunks = actualOutput chunks' ∧
          actualOutput chunks = dataEvents stream - 1) ↔
      countMarks stream ≤ 1) := by
  have events := dataEvents_add_inlineMarks stream
  constructor
  · rintro chunks rfl
    have counted := sum_countMarks chunks
    unfold actualOutput
    omega
  · constructor
    · intro all
      have bytes : (stream.map fun b => [b]).flatten = stream := by
        simp [← List.flatMap_def]
      have none_left : ((stream.map fun b => [b]).map countMarks).sum = 0 := by
        rw [funext countMarks_eq]
        exact occurrences_singletons dataMark (by simp [dataMark]) stream
      -- read at once every mark is counted, read byte by byte none is
      have same := (all [stream] (stream.map fun b => [b]) (by simp) bytes).1
      simp only [actualOutput, none_left, List.map_singleton, List.sum_singleton] at same
      omega
    · rintro few chunks chunks' rfl whole
      have counted := sum_countMarks chunks
      have counted' := sum_countMarks chunks'
      rw [whole] at counted'
      unfold actualOutput
      omega

/-- `data: a`, a blank line, `data: [DONE]` and a blank line, cut after the second byte. One
token was streamed; the cut loses it. -/
theorem cut_mark_lost :
    let stream := dataMark ++ [0x20, 0x61, 0x0A, 0x0A] ++ dataMark ++
      [0x20, 0x5B, 0x44, 0x4F, 0x4E, 0x45, 0x5D, 0x0A, 0x0A]
    [stream].flatten = stream ∧ [stream.take 2, stream.drop 2].flatten = stream ∧
      actualOutput [stream] = dataEvents stream - 1 ∧
      actualOutput [stream.take 2, stream.drop 2] ≠ actualOutput [stream] := by
  decide +kernel

end Gateway
