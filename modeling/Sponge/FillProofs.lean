import Sponge.SenderStreamProofs
import Sponge.SenderRuleProofs

/-! # Filling the window

    `fill_window` cuts segments off the stream until the window is full or nothing is
    left to send.  From any state whose next number is inside the window,
    `fills_completely` says that the loop ends, that it ends nowhere else, and how the
    segments are cut: all but the last are as long as they can be, and the `FIN` goes
    out with the last byte if there is a number left for it.

    The heart is that a segment shorter than it could be has emptied the buffer, and
    took the `FIN` along if the stream had ended (`Emission.last_of_short`): so nothing
    is left to send after it.  All this needs is that the next number is ahead of the
    bytes read (`Ahead`), which no operation breaks.  That the `SYN` and the `FIN` were
    sent where nothing is left needs more (`Marked`): no late write, and no flags but
    `RST` on a segment that the sender did not cut itself. -/

namespace SpongeFill

open SpongeByteStream SpongeWrapping SpongeSegment SpongeSender Word64 RunRule
open SpongeOldAck SpongeSenderRule TCPSender
open SpongeSenderStream (edge edge_congr)

variable {s s' t : TCPSender} {seg : TCPSegment}

/-- Inside the window the free space is the distance to its edge. -/
theorem availableSpace_inside (hle : s.nextSeqno ≤ edge s) (h64 : edge s < 2 ^ 64) :
    s.availableSpace = edge s - s.nextSeqno := by
  rw [availableSpace_eq]
  exact sub64_of_le hle (by show edge s - s.nextSeqno < 2 ^ 64; omega)

theorem lengthInSequenceSpace_eq (seg : TCPSegment) :
    seg.lengthInSequenceSpace = seg.payload.length
      + (if seg.header.syn then 1 else 0) + (if seg.header.fin then 1 else 0) := rfl

/-! ## What has been sent -/

/-- A segment with the `SYN` flag was sent. -/
def SynSent (s : TCPSender) : Prop := ∃ seg ∈ s.segmentsOut, seg.header.syn = true

/-- A segment with the `FIN` flag was sent. -/
def FinSent (s : TCPSender) : Prop := ∃ seg ∈ s.segmentsOut, seg.header.fin = true

/-- The next number says what was sent: past zero the `SYN`, and two past the bytes
    read the `FIN` as well. -/
structure Marked (s : TCPSender) : Prop where
  phase : Phase s
  syn : s.nextSeqno ≠ 0 → SynSent s
  fin : s.nextSeqno = s.stream.bytesRead + 2 → FinSent s

/-- Only the next number, the stream and what was sent matter; more may be sent. -/
theorem Marked.congr (h : Marked s) (hnext : s'.nextSeqno = s.nextSeqno)
    (hphase : Phase s') (hread : s'.stream.bytesRead = s.stream.bytesRead)
    (hout : s.segmentsOut <+: s'.segmentsOut) : Marked s' := by
  refine ⟨hphase, fun hn => ?_, fun hn => ?_⟩
  · rw [hnext] at hn
    obtain ⟨seg, hmem, hsyn⟩ := h.syn hn
    exact ⟨seg, hout.subset hmem, hsyn⟩
  · rw [hnext, hread] at hn
    obtain ⟨seg, hmem, hfin⟩ := h.fin hn
    exact ⟨seg, hout.subset hmem, hfin⟩

/-- A segment that does not close the stream leaves the next number one past the bytes
    read. -/
theorem nextSeqno_of_open (h : Phase s) (hem : Emission s seg s')
    (hfin : seg.header.fin = false) : s'.nextSeqno = s'.stream.bytesRead + 1 := by
  obtain ⟨hread, hnext⟩ := h.open_of_needed hem.needed
  have hlen := lengthInSequenceSpace_eq seg
  have hsyn := hem.syn
  rw [hfin, if_neg Bool.false_ne_true] at hlen
  rw [hem.nextSeqno, hem.bytesRead]
  split_ifs at hlen with hs
  · have hz := hsyn.mp hs
    omega
  · have hz : s.nextSeqno ≠ 0 := fun hz => hs (hsyn.mpr hz)
    omega

theorem Marked.emit (h : Marked s) (hem : Emission s seg s') : Marked s' := by
  have hout : seg ∈ s'.segmentsOut := by
    rw [hem.segmentsOut]
    exact List.mem_append.mpr (Or.inr (List.mem_singleton_self seg))
  refine ⟨(hem.toEmitted.phase h.phase).1, fun _ => ?_, fun hnext => ?_⟩
  · by_cases hz : s.nextSeqno = 0
    · exact ⟨seg, hout, hem.syn.mpr hz⟩
    · obtain ⟨first, hmem, hsyn⟩ := h.syn hz
      refine ⟨first, ?_, hsyn⟩
      rw [hem.segmentsOut]
      exact List.mem_append.mpr (Or.inl hmem)
  · cases hfin : seg.header.fin with
    | true => exact ⟨seg, hout, hfin⟩
    | false =>
        have hopen := nextSeqno_of_open h.phase hem hfin
        omega

/-- **WHAT WAS SENT** can be read off the next number after every change; a write
    needs a stream that has not ended. -/
theorem marked_changes : Changes (fun s => s.stream.inputEnded = false) Marked where
  emit := fun _ _ _ h hem => h.emit hem
  window := fun _ _ h => h.congr rfl h.phase rfl (List.prefix_refl _)
  base := fun _ _ h _ => h.congr rfl h.phase rfl (List.prefix_refl _)
  pop := fun _ _ _ h _ _ => h.congr rfl h.phase rfl (List.prefix_refl _)
  write := by
    intro s data h hopen
    refine h.congr rfl ?_ rfl (List.prefix_refl _)
    rcases h.phase with hp | hp | ⟨-, hend, -⟩
    · exact Or.inl hp
    · exact Or.inr (Or.inl hp)
    · exact absurd (hopen.symm.trans hend) Bool.false_ne_true
  ended := by
    intro s h
    refine h.congr rfl ?_ rfl (List.prefix_refl _)
    rcases h.phase with hp | hp | ⟨hp, -, hnil⟩
    · exact Or.inl hp
    · exact Or.inr (Or.inl hp)
    · exact Or.inr (Or.inr ⟨hp, rfl, hnil⟩)
  error := fun _ h => h.congr rfl h.phase rfl (List.prefix_refl _)
  more := fun _ _ h => h.congr rfl h.phase rfl (List.prefix_append _ _)

theorem Marked.reset (h : Marked s) : Marked (s.sendFlagsSegment false false true) :=
  h.congr rfl h.phase rfl (List.prefix_append _ _)

theorem Marked.tick (h : Marked s) (ms : Nat) : Marked (s.tick ms) := by
  rcases tick_cases s ms with ⟨htick, -⟩ | ⟨front, rest, -, -, htick⟩
  · rw [htick]
    exact h.congr rfl h.phase rfl (List.prefix_refl _)
  · rw [htick]
    exact h.congr rfl h.phase rfl (List.prefix_append _ _)

/-! ## Where filling stops -/

/-- The buffer is empty, the `SYN` was sent, and the `FIN` too if the input has
    ended. -/
structure AllSent (s : TCPSender) : Prop where
  buffer : s.stream.buffer = []
  syn : SynSent s
  fin : s.stream.inputEnded = true → FinSent s

/-- Where nothing is needed all is sent. -/
theorem Marked.allSent (h : Marked s) (hidle : s.segmentNeeded = false) : AllSent s := by
  have hnot : ¬ s.segmentNeeded = true := by
    rw [hidle]
    exact Bool.false_ne_true
  rw [segmentNeeded_iff] at hnot
  obtain ⟨hz, hrest⟩ := not_or.mp hnot
  obtain ⟨hdata, hfin⟩ := not_or.mp hrest
  have hnil : s.stream.buffer = [] := Classical.not_not.mp hdata
  refine ⟨hnil, h.syn hz, fun hend => h.fin ?_⟩
  have hacc := s.stream.accounted
  rw [hnil, List.length_nil] at hacc
  rcases h.phase with ⟨hp, -⟩ | hp | ⟨hp, -, -⟩
  · exact absurd hp hz
  · exact absurd ⟨hend, hnil, by omega⟩ hfin
  · omega

/-! ## How the segments are cut -/

/-- The next number is ahead of the bytes read, unless nothing was sent at all. -/
def Ahead (s : TCPSender) : Prop :=
  s.stream.bytesRead + 1 ≤ s.nextSeqno ∨ (s.nextSeqno = 0 ∧ s.stream.bytesRead = 0)

/-- An emission gets ahead by one, and by another one with the `FIN`. -/
theorem Ahead.emitted (h : Ahead s) (hem : Emission s seg s') :
    s'.stream.bytesRead + 1 + (if seg.header.fin then 1 else 0) ≤ s'.nextSeqno := by
  have hlen := lengthInSequenceSpace_eq seg
  rw [hem.nextSeqno, hem.bytesRead]
  rcases h with hahead | ⟨hz, hread⟩
  · omega
  · rw [if_pos (hem.syn.mpr hz)] at hlen
    omega

theorem ahead_changes : Changes (fun _ => True) Ahead where
  emit := fun _ _ _ h hem => Or.inl (Nat.le_trans (Nat.le_add_right _ _) (h.emitted hem))
  window := fun _ _ h => h
  base := fun _ _ h _ => h
  pop := fun _ _ _ h _ _ => h
  write := fun _ _ h _ => h
  ended := fun _ h => h
  error := fun _ h => h
  more := fun _ _ h => h

theorem Ahead.tick (h : Ahead s) (ms : Nat) : Ahead (s.tick ms) := by
  have hticked := ticked s ms
  rw [Ahead, hticked.nextSeqno, hticked.stream]
  exact h

/-- Whatever its flags, an empty segment does not take the number back. -/
theorem Ahead.flags (h : Ahead s) (syn fin rst : Bool) :
    Ahead (s.sendFlagsSegment syn fin rst) := by
  show s.stream.bytesRead + 1 ≤ s.nextSeqno + _ ∨ (s.nextSeqno + _ = 0 ∧ s.stream.bytesRead = 0)
  rcases h with hahead | ⟨hz, hread⟩
  · exact Or.inl (Nat.le_trans hahead (Nat.le_add_right _ _))
  · omega

theorem ahead_run {capacity : UInt64} {retxTimeout : BitVec 16} {isn : WrappingInt32}
    {ops : List SpongeOldAck.Op} {x : Hearing}
    (hrun : run SpongeOldAck.step (SpongeOldAck.start capacity retxTimeout isn) ops
      = some x) : Ahead x.sender :=
  ahead_changes.reached (fun _ ms h => h.tick ms) (fun _ syn fin rst h => h.flags syn fin rst)
    (Or.inr ⟨rfl, rfl⟩) hrun

/-- A segment that is shorter than it could be is the last one. -/
theorem Emission.last_of_short (hem : Emission s seg s') (h : Ahead s)
    (hshort : seg.payload.length
      < min TCPConfig.maxPayloadSize (s.availableSpace - synSize s)) :
    s'.segmentNeeded = false := by
  have hlength := hem.length
  have happ := congrArg List.length hem.payload
  rw [List.length_append] at happ
  have hnil : s'.stream.buffer = [] := List.length_eq_zero_iff.mp (by omega)
  have hahead := h.emitted hem
  cases hneed : s'.segmentNeeded with
  | false => rfl
  | true =>
      -- the buffer is empty and the `SYN` is out, so only the `FIN` could be left
      rcases (segmentNeeded_iff s').mp hneed with hz | hdata | ⟨hend, -, hlt⟩
      · omega
      · exact absurd hnil hdata
      · have hfin : seg.header.fin = true :=
          hem.fin_iff.mpr ⟨hem.same.inputEnded.symm.trans hend, hnil, by omega⟩
        have hacc := s'.stream.accounted
        rw [hnil, List.length_nil] at hacc
        rw [if_pos hfin] at hahead
        omega

/-- How `fill_window`, called on `s`, cut the segment `p` after the segments `pre` and
    before `post`: with another one behind it, it is as long as a segment and the
    window allow; and where it takes the last byte of an ended stream and a number is
    left in the window, it carries the `FIN`. -/
structure CutAt (s : TCPSender) (pre : List (Nat × TCPSegment)) (p : Nat × TCPSegment)
    (post : List (Nat × TCPSegment)) : Prop where
  full : post ≠ [] → p.2.payload.length
    = min TCPConfig.maxPayloadSize (edge s - p.1 - if p.1 = 0 then 1 else 0)
  closes : s.stream.inputEnded = true →
    p.2.payload ≠ [] → ((pre ++ [p]).map fun q => q.2.payload).flatten = s.stream.buffer →
    p.1 + (if p.1 = 0 then 1 else 0) + p.2.payload.length < edge s → p.2.header.fin = true

/-- The first segment is cut so. -/
theorem Emission.cutAt (hem : Emission s seg s') (hahead : Ahead s)
    (hspace : s.availableSpace = edge s - s.nextSeqno) {l : List (Nat × TCPSegment)}
    (hl : Fills s' l t) : CutAt s [] (s.nextSeqno, seg) l where
  full := by
    intro hmore
    show seg.payload.length
      = min TCPConfig.maxPayloadSize (edge s - s.nextSeqno - synSize s)
    rw [← hspace]
    by_contra hne
    have hlength := hem.length
    have hidle := Emission.last_of_short hem hahead (by omega)
    cases hl with
    | done => exact hmore rfl
    | emit head _ => exact absurd (hidle.symm.trans head.needed) Bool.false_ne_true
  closes := by
    intro hend _ hlast hroom
    have hall : seg.payload = s.stream.buffer := by
      rw [← hlast]
      exact (List.append_nil _).symm
    have hnil : s'.stream.buffer = [] := by
      have happ := hem.payload
      rw [hall] at happ
      exact List.append_right_eq_self.mp happ
    refine hem.fin_iff.mpr ⟨hend, hnil, ?_⟩
    have hroom' : s.nextSeqno + synSize s + seg.payload.length < edge s := hroom
    omega

/-- What was cut after an emission was cut so from the start. -/
theorem CutAt.cons (hem : Emission s seg s') {pre post : List (Nat × TCPSegment)}
    {p : Nat × TCPSegment} (h : CutAt s' pre p post) :
    CutAt s ((s.nextSeqno, seg) :: pre) p post where
  full := by
    rw [← edge_congr hem.same]
    exact h.full
  closes := by
    intro hend hdata hlast hroom
    rw [← edge_congr hem.same] at hroom
    refine h.closes (hem.same.inputEnded.trans hend) hdata ?_ hroom
    rw [← hem.payload] at hlast
    exact List.append_cancel_left hlast

/-- Filling leads from `s` over the segments `l` to `t`: inside the window every
    segment is cut as `CutAt` says, and it ends at the edge or with nothing to send. -/
def CutsTo (s : TCPSender) (l : List (Nat × TCPSegment)) (t : TCPSender) : Prop :=
  Ahead s → s.nextSeqno ≤ edge s → edge s < 2 ^ 64 →
    (∀ pre p post, l = pre ++ p :: post → CutAt s pre p post)
      ∧ (t.nextSeqno = edge s ∨ t.segmentNeeded = false)

theorem cutsTo_done (hstop : Stopped s) : CutsTo s [] s := by
  intro _ hle h64
  refine ⟨fun pre p post h => absurd h.symm (by simp), ?_⟩
  rcases hstop with hfull | hidle
  · rw [availableSpace_inside hle h64] at hfull
    exact Or.inl (by omega)
  · exact Or.inr hidle

theorem cutsTo_emit {l : List (Nat × TCPSegment)} (hem : Emission s seg s')
    (hl : Fills s' l t) (ih : CutsTo s' l t) : CutsTo s ((s.nextSeqno, seg) :: l) t := by
  intro hahead hle h64
  have hspace := availableSpace_inside hle h64
  have hfits := hem.fits
  have hedge := edge_congr hem.same
  have hnext := hem.nextSeqno
  obtain ⟨hcuts, hend⟩ := ih (ahead_changes.emit _ _ _ hahead hem) (by omega) (by omega)
  refine ⟨fun pre p post hsplit => ?_, by rw [← hedge]; exact hend⟩
  cases pre with
  | nil =>
      obtain ⟨rfl, rfl⟩ := List.cons.inj hsplit
      exact Emission.cutAt hem hahead hspace hl
  | cons q pre =>
      obtain ⟨rfl, hrest⟩ := List.cons.inj hsplit
      exact CutAt.cons hem (hcuts pre p post hrest)

/-- **HOW THE WINDOW IS FILLED**. -/
theorem fillWindow_cutsTo (s : TCPSender) :
    ∃ l, Fills s l s.fillWindow ∧ CutsTo s l s.fillWindow :=
  fillWindow_induction (fun _ hstop => cutsTo_done hstop)
    (fun _ _ _ _ _ hem hl _ ih => cutsTo_emit hem hl ih) s

/-! ## Over whole runs -/

/-- No write after the end of the input, and the overload with flags is called with
    `RST` alone. -/
def Orderly (x : Hearing) : SpongeOldAck.Op → Prop
  | .write _ => x.sender.stream.inputEnded = false
  | op => OnlyResets op

instance (x : Hearing) : ∀ op : SpongeOldAck.Op, Decidable (Orderly x op)
  | .write _ => inferInstanceAs (Decidable (_ = _))
  | .endInput => isTrue trivial
  | .setError => isTrue trivial
  | .fillWindow => isTrue trivial
  | .ackReceived _ _ => isTrue trivial
  | .tick _ => isTrue trivial
  | .sendEmptySegment => isTrue trivial
  | .sendFlagsSegment syn fin rst =>
      inferInstanceAs (Decidable (OnlyResets (.sendFlagsSegment syn fin rst)))

theorem marked_run {capacity : UInt64} {retxTimeout : BitVec 16} {isn : WrappingInt32}
    {ops : List SpongeOldAck.Op} {x : Hearing}
    (hops : Along SpongeOldAck.step Orderly (SpongeOldAck.start capacity retxTimeout isn) ops)
    (hrun : run SpongeOldAck.step (SpongeOldAck.start capacity retxTimeout isn) ops
      = some x) : Marked x.sender := by
  refine run_invariant (I := fun x : Hearing => Marked x.sender) (P := Orderly) ?_ ops
    (SpongeOldAck.start capacity retxTimeout isn) x ?_ hops hrun
  · intro y op z hy hop hstep
    rw [step_sender hstep]
    refine marked_changes.call (fun _ ms hs => hs.tick ms) hy ?_ ?_
    · rintro data rfl
      exact hop
    · rintro syn fin rst rfl
      have hresets : OnlyResets (.sendFlagsSegment syn fin rst) := hop
      exact hresets.flags hy.reset syn fin rst rfl
  · refine ⟨Or.inl ⟨rfl, rfl⟩, fun hz => absurd rfl hz, fun hnext => ?_⟩
    exact absurd (show 0 = 0 + 2 from hnext) (by decide)

/-- **FILLING COMPLETELY**: after any run, from a next number inside the window,
    `fill_window` ends, and its new segments are cut as `CutAt` says; if there was no late
    write and no flag but `RST` on an empty segment, it ends at the edge or with
    everything sent. -/
theorem fills_completely (capacity : UInt64) (retxTimeout : BitVec 16)
    (isn : WrappingInt32) (ops : List SpongeOldAck.Op) (x : Hearing)
    (hrun : run SpongeOldAck.step (SpongeOldAck.start capacity retxTimeout isn) ops
      = some x)
    (hle : x.sender.nextSeqno ≤ edge x.sender) (h64 : edge x.sender < 2 ^ 64) :
    Leaves fillRound x.sender x.sender.fillWindow
      ∧ (∃ new,
        x.sender.fillWindow.outstandingSegments = x.sender.outstandingSegments ++ new
        ∧ x.sender.fillWindow.segmentsOut = x.sender.segmentsOut ++ new.map Prod.snd
        ∧ ∀ pre p post, new = pre ++ p :: post → CutAt x.sender pre p post)
      ∧ (Along SpongeOldAck.step Orderly (SpongeOldAck.start capacity retxTimeout isn) ops →
        x.sender.fillWindow.nextSeqno = edge x.sender ∨ AllSent x.sender.fillWindow) := by
  obtain ⟨l, hl, hcutsTo⟩ := fillWindow_cutsTo x.sender
  obtain ⟨hcuts, hend⟩ := hcutsTo (ahead_run hrun) hle h64
  refine ⟨whileTrue_leaves (μ := unsent) ?_ _ _ (Nat.lt_succ_self _),
    ⟨l, hl.outstanding, hl.segmentsOut, hcuts⟩, fun hops => ?_⟩
  · intro s hgo
    obtain ⟨seg, hem⟩ := fillRound_emission hgo
    exact hem.toEmitted.unsent_lt
  · exact hend.imp_right (marked_changes.fillWindow (marked_run hops hrun)).allSent

/-- Three bytes of an ended stream under a window of four: one segment with the `FIN`. -/
theorem fills_completely_to_the_fin :
    ∃ x, run SpongeOldAck.step (SpongeOldAck.start 8 1000 ⟨0⟩)
        [.fillWindow, .ackReceived ⟨1⟩ 4, .write [97, 98, 99], .endInput] = some x
      ∧ x.sender.fillWindow.nextSeqno = 5
      ∧ Leaves fillRound x.sender x.sender.fillWindow
      ∧ (x.sender.fillWindow.nextSeqno = edge x.sender ∨ AllSent x.sender.fillWindow) := by
  have hreach : ∃ x, run SpongeOldAck.step (SpongeOldAck.start 8 1000 ⟨0⟩)
      [.fillWindow, .ackReceived ⟨1⟩ 4, .write [97, 98, 99], .endInput] = some x
      ∧ x.sender.fillWindow.nextSeqno = 5 ∧ x.sender.nextSeqno ≤ edge x.sender
      ∧ edge x.sender < 2 ^ 64 := run_reaches (by decide)
  obtain ⟨x, hrun, hfive, hle, h64⟩ := hreach
  obtain ⟨hleaves, -, hend⟩ := fills_completely 8 1000 ⟨0⟩ _ x hrun hle h64
  exact ⟨x, hrun, hfive, hleaves, hend (by decide)⟩

end SpongeFill
