import Mathlib.Data.List.Nodup
import Sponge.DescriptorProofs
import Sponge.RunProofs

/-! # The event loop — `eventloop`

    A rule asks for a descriptor to become readable or writable and has a callback
    for that.  `wait_next_event` first drops the rules whose descriptor is at its end
    or closed, then polls for the rules that are interested, and calls back those that
    are ready.  The rules' functions are arbitrary; they share a state, in which the
    descriptors are found.

    `Keeps` is the rule by which the programs on top of it are verified: what the
    functions of the rules keep, every wait keeps.  A callback may rely on what its
    rule's interest said when it was asked, as far as the other rules leave it so;
    nobody asks again before the call.

    `acted_exactly` says for any run which functions are called: in every wait the
    rules that were interested and ready, once and in their order, and of a rule that
    was cancelled nothing ever again. -/

namespace SpongeEventLoop

open SpongeDescriptor RunRule RaiseRule

inductive Direction where
  | In
  | Out
deriving DecidableEq, Repr

/-- A rule over descriptors `φ` and a state `σ`; its functions may raise an `ε`. -/
structure Rule (φ σ ε : Type) where
  fd : φ
  direction : Direction
  callback : σ → Except ε σ
  interest : σ → Bool := fun _ => true
  cancel : σ → Except ε σ := .ok

/-- What `wait_next_event` raises: one of its own exceptions, or one of a rule. -/
inductive LoopError (ε : Type) where
  | polled
  | busyWait
  | thrown (e : ε)
deriving DecidableEq, Repr

/-- The source's texts. -/
def LoopError.text : LoopError String → String
  | polled => "EventLoop: error on polled file descriptor"
  | busyWait =>
      "EventLoop: busy wait detected: callback did not read/write fd and is still interested"
  | thrown e => e

/-- The bits of `revents` that are looked at. -/
structure Revents where
  pollin : Bool := false
  pollout : Bool := false
  pollhup : Bool := false
  pollerr : Bool := false
  pollnval : Bool := false
deriving DecidableEq, Repr

/-- `POLLERR | POLLNVAL` -/
def Revents.failed (r : Revents) : Bool := r.pollerr || r.pollnval

def Revents.ready (r : Revents) : Direction → Bool
  | .In => r.pollin
  | .Out => r.pollout

/-- What `poll` answers.  An entry is named by the descriptor and the direction of its
    rule.  After a failure that is no interruption the source goes on with no bit set. -/
inductive Poll (φ : Type) where
  | timeout
  | interrupted
  | answered (revents : φ → Direction → Revents)

inductive Result where
  | success
  | timeout
  | exit
deriving DecidableEq, Repr

section Loop

variable {φ σ ε : Type} (fds : σ → φ → FDWrapper)

namespace Rule

/-- `service_count` -/
def serviceCount (r : Rule φ σ ε) (s : σ) : BitVec 32 :=
  match r.direction with
  | .In => (fds s r.fd).readCount
  | .Out => (fds s r.fd).writeCount

/-- The rule is dropped before polling. -/
def ended (r : Rule φ σ ε) (s : σ) : Bool :=
  (r.direction = .In && (fds s r.fd).eof) || (fds s r.fd).closed

end Rule

/-- The loop that sets up the entries: the rules that are left, and whether they are
    interested. -/
def setUp : List (Rule φ σ ε) → σ → Except (LoopError ε) (List (Rule φ σ ε × Bool) × σ)
  | [], s => .ok ([], s)
  | rule :: rules, s =>
      if rule.ended fds s then do
        let s ← (rule.cancel s).mapError .thrown
        setUp rules s
      else do
        let interested := rule.interest s
        let (rest, s) ← setUp rules s
        .ok ((rule, interested) :: rest, s)

/-- The callback, and the check that it did something. -/
def callBack (rule : Rule φ σ ε) (s : σ) : Except (LoopError ε) σ := do
  let countBefore := rule.serviceCount fds s
  let s ← (rule.callback s).mapError .thrown
  if countBefore = rule.serviceCount fds s ∧ rule.interest s = true then .error .busyWait
  else .ok s

/-- The loop over the answers. -/
def serve (revents : φ → Direction → Revents) :
    List (Rule φ σ ε × Bool) → σ → Except (LoopError ε) (List (Rule φ σ ε) × σ)
  | [], s => .ok ([], s)
  | (rule, events) :: rest, s =>
      let this := revents rule.fd rule.direction
      if this.failed then .error .polled
      else
        let pollReady := events && this.ready rule.direction
        if this.pollhup && events && !pollReady then do
          let s ← (rule.cancel s).mapError .thrown
          serve revents rest s
        else if pollReady then do
          let s ← callBack fds rule s
          let (rules, s) ← serve revents rest s
          .ok (rule :: rules, s)
        else do
          let (rules, s) ← serve revents rest s
          .ok (rule :: rules, s)

/-- `wait_next_event` from the call of `poll` on; it is not called if no rule is
    interested. -/
def pollEntries (poll : Poll φ) (entries : List (Rule φ σ ε × Bool)) (s : σ) :
    Except (LoopError ε) (Result × List (Rule φ σ ε) × σ) :=
  let kept := entries.map Prod.fst
  if entries.all fun entry => !entry.2 then .ok (.exit, kept, s)
  else
    match poll with
    | .timeout => .ok (.timeout, kept, s)
    | .interrupted => .ok (.exit, kept, s)
    | .answered revents => do
        let (rules, s) ← serve fds revents entries s
        .ok (.success, rules, s)

def waitNextEvent (rules : List (Rule φ σ ε)) (poll : Poll φ) (s : σ) :
    Except (LoopError ε) (Result × List (Rule φ σ ε) × σ) := do
  let (entries, s) ← setUp fds rules s
  pollEntries fds poll entries s

/-- One wait, for runs of the loop; it is not enabled where an exception leaves it. -/
def wait (x : List (Rule φ σ ε) × σ) (poll : Poll φ) : Option (List (Rule φ σ ε) × σ) :=
  match waitNextEvent fds x.1 poll x.2 with
  | .ok (_, y) => some y
  | .error _ => none

end Loop

/-! ## One step of each loop -/

section Steps

variable {φ σ ε : Type} {fds : σ → φ → FDWrapper} {rule : Rule φ σ ε} {s s' : σ}

/-- An entry is set up: its rule is dropped, or asked for its interest. -/
theorem setUp_cons {rules : List (Rule φ σ ε)} {entries : List (Rule φ σ ε × Bool)}
    (h : setUp fds (rule :: rules) s = .ok (entries, s')) :
    (rule.ended fds s = true ∧ ∃ s₁, rule.cancel s = .ok s₁
      ∧ setUp fds rules s₁ = .ok (entries, s'))
    ∨ (rule.ended fds s = false ∧ ∃ rest, entries = (rule, rule.interest s) :: rest
      ∧ setUp fds rules s = .ok (rest, s')) := by
  rw [setUp] at h
  cases hended : rule.ended fds s with
  | true =>
      rw [hended, if_pos rfl] at h
      obtain ⟨s₁, hcancel, hrest⟩ := bind_eq_ok.mp h
      exact Or.inl ⟨rfl, s₁, mapError_eq_ok.mp hcancel, hrest⟩
  | false =>
      rw [hended, if_neg Bool.false_ne_true] at h
      obtain ⟨⟨rest, s₁⟩, hrest, heq⟩ := bind_eq_ok.mp h
      obtain ⟨rfl, rfl⟩ := Prod.mk.inj (Except.ok.inj heq)
      exact Or.inr ⟨rfl, rest, rfl, hrest⟩

theorem callBack_ok (h : callBack fds rule s = .ok s') : rule.callback s = .ok s' := by
  obtain ⟨s₁, hcall, hrest⟩ := bind_eq_ok.mp h
  split_ifs at hrest with hbusy
  rw [← Except.ok.inj hrest]
  exact mapError_eq_ok.mp hcall

section Answer

variable {revents : φ → Direction → Revents} {events : Bool} {rest : List (Rule φ σ ε × Bool)}
  {rules : List (Rule φ σ ε)}

/-- The entry was polled, and its descriptor hung up without being ready. -/
def HungUp (revents : φ → Direction → Revents) (rule : Rule φ σ ε) (events : Bool) : Prop :=
  let this := revents rule.fd rule.direction
  events = true ∧ this.ready rule.direction = false ∧ this.pollhup = true

/-- The entry was polled, and its descriptor is ready. -/
def Ready (revents : φ → Direction → Revents) (rule : Rule φ σ ε) (events : Bool) : Prop :=
  events = true ∧ (revents rule.fd rule.direction).ready rule.direction = true

instance (rule : Rule φ σ ε) : Decidable (HungUp revents rule events) :=
  inferInstanceAs (Decidable (_ ∧ _))

instance (rule : Rule φ σ ε) : Decidable (Ready revents rule events) :=
  inferInstanceAs (Decidable (_ ∧ _))

/-- One answer: raise, cancel, call back, or pass over. -/
theorem serve_cons_eq (rule : Rule φ σ ε) (events : Bool) (rest : List (Rule φ σ ε × Bool)) (s : σ) :
    serve fds revents ((rule, events) :: rest) s
      = if (revents rule.fd rule.direction).failed = true then .error .polled
        else if HungUp revents rule events then
          (rule.cancel s).mapError .thrown >>= serve fds revents rest
        else if Ready revents rule events then
          callBack fds rule s >>= fun s =>
            serve fds revents rest s >>= fun r => .ok (rule :: r.1, r.2)
        else serve fds revents rest s >>= fun r => .ok (rule :: r.1, r.2) := by
  rw [serve]
  dsimp only
  congr 1
  refine if_congr ?_ rfl (if_congr ?_ rfl rfl)
  · rw [HungUp]
    cases events <;> simp [and_comm]
  · rw [Ready, Bool.and_eq_true]

/-- An answer is gone through: the rule is cancelled, called back, or passed over. -/
theorem serve_cons (h : serve fds revents ((rule, events) :: rest) s = .ok (rules, s')) :
    (HungUp revents rule events
      ∧ ∃ s₁, rule.cancel s = .ok s₁ ∧ serve fds revents rest s₁ = .ok (rules, s'))
    ∨ (Ready revents rule events
      ∧ ∃ s₁ rules₁, callBack fds rule s = .ok s₁ ∧ rules = rule :: rules₁
        ∧ serve fds revents rest s₁ = .ok (rules₁, s'))
    ∨ (¬ HungUp revents rule events ∧ ¬ Ready revents rule events
      ∧ ∃ rules₁, rules = rule :: rules₁ ∧ serve fds revents rest s = .ok (rules₁, s')) := by
  rw [serve_cons_eq] at h
  split_ifs at h with herror hhup hready
  · obtain ⟨s₁, hcancel, hrest⟩ := bind_eq_ok.mp h
    exact Or.inl ⟨hhup, s₁, mapError_eq_ok.mp hcancel, hrest⟩
  · obtain ⟨s₁, hcall, hrest⟩ := bind_eq_ok.mp h
    obtain ⟨⟨rules₁, s₂⟩, hserve, heq⟩ := bind_eq_ok.mp hrest
    obtain ⟨rfl, rfl⟩ := Prod.mk.inj (Except.ok.inj heq)
    exact Or.inr (Or.inl ⟨hready, s₁, rules₁, hcall, rfl, hserve⟩)
  · obtain ⟨⟨rules₁, s₂⟩, hserve, heq⟩ := bind_eq_ok.mp h
    obtain ⟨rfl, rfl⟩ := Prod.mk.inj (Except.ok.inj heq)
    exact Or.inr (Or.inr ⟨hhup, hready, rules₁, rfl, hserve⟩)

theorem serve_not_failed (h : serve fds revents ((rule, events) :: rest) s = .ok (rules, s')) :
    ¬ (revents rule.fd rule.direction).failed = true := by
  intro hfailed
  rw [serve_cons_eq, if_pos hfailed] at h
  cases h

end Answer

/-- A wait sets up, and then goes through the answers if there are any. -/
theorem waitNextEvent_ok {rules rules' : List (Rule φ σ ε)} {poll : Poll φ} {result : Result}
    (h : waitNextEvent fds rules poll s = .ok (result, rules', s')) :
    ∃ entries s₁, setUp fds rules s = .ok (entries, s₁)
      ∧ ((result ≠ .success ∧ rules' = entries.map Prod.fst ∧ s' = s₁
          ∧ (result = .exit → poll = .interrupted ∨ ∀ entry ∈ entries, entry.2 = false))
        ∨ (result = .success ∧ ∃ revents, poll = .answered revents
          ∧ serve fds revents entries s₁ = .ok (rules', s'))) := by
  obtain ⟨⟨entries, s₁⟩, hset, hrest⟩ := bind_eq_ok.mp h
  refine ⟨entries, s₁, hset, ?_⟩
  unfold pollEntries at hrest
  dsimp only at hrest
  split_ifs at hrest with hquiet
  · simp only [Except.ok.injEq, Prod.mk.injEq] at hrest
    obtain ⟨rfl, rfl, rfl⟩ := hrest
    refine Or.inl ⟨by decide, rfl, rfl, fun _ => Or.inr fun entry hentry => ?_⟩
    simpa using List.all_eq_true.mp hquiet entry hentry
  · cases poll with
    | timeout =>
        simp only [Except.ok.injEq, Prod.mk.injEq] at hrest
        obtain ⟨rfl, rfl, rfl⟩ := hrest
        exact Or.inl ⟨by decide, rfl, rfl, fun h => absurd h (by decide)⟩
    | interrupted =>
        simp only [Except.ok.injEq, Prod.mk.injEq] at hrest
        obtain ⟨rfl, rfl, rfl⟩ := hrest
        exact Or.inl ⟨by decide, rfl, rfl, fun _ => Or.inl rfl⟩
    | answered revents =>
        obtain ⟨⟨rules₁, s₂⟩, hserve, heq⟩ := bind_eq_ok.mp hrest
        simp only [Except.ok.injEq, Prod.mk.injEq] at heq
        obtain ⟨rfl, rfl, rfl⟩ := heq
        exact Or.inr ⟨rfl, revents, rfl, hserve⟩

theorem wait_eq_some {x y : List (Rule φ σ ε) × σ} {poll : Poll φ} (h : wait fds x poll = some y) :
    ∃ result, waitNextEvent fds x.1 poll x.2 = .ok (result, y) := by
  rw [wait] at h
  split at h
  · rename_i result z hwait
    obtain rfl := Option.some.inj h
    exact ⟨result, hwait⟩
  · cases h

end Steps

/-! ## The invariant rule -/

/-- The answer says that the descriptor of the rule hung up. -/
def Poll.Hangs {φ σ ε : Type} (poll : Poll φ) (rule : Rule φ σ ε) : Prop :=
  ∃ revents, poll = .answered revents ∧ (revents rule.fd rule.direction).pollhup = true

/-- `I` is kept by the functions of the rules that are left, where a callback may rely on
    `G`: what its rule's interest implies and the other rules leave as it is. -/
structure Keeps {φ σ ε : Type} (fds : σ → φ → FDWrapper) (poll : Poll φ)
    (I : List (Rule φ σ ε) → σ → Prop) (G : Rule φ σ ε → σ → Prop) : Prop where
  interest : ∀ rules s r, I rules s → r ∈ rules → r.ended fds s = false → r.interest s = true →
    G r s
  cancel : ∀ pre r post s s', I (pre ++ r :: post) s → r.ended fds s = true ∨ poll.Hangs r →
    r.cancel s = .ok s' → I (pre ++ post) s' ∧ ∀ r' ∈ pre ++ post, G r' s → G r' s'
  callback : ∀ pre r post s s', I (pre ++ r :: post) s → G r s → r.callback s = .ok s' →
    I (pre ++ r :: post) s' ∧ ∀ r' ∈ pre ++ post, G r' s → G r' s'

namespace Keeps

variable {φ σ ε : Type} {fds : σ → φ → FDWrapper} {poll : Poll φ}
  {I : List (Rule φ σ ε) → σ → Prop} {G : Rule φ σ ε → σ → Prop}

/-- Setting up: `done` are the entries so far. -/
theorem setUp (h : Keeps fds poll I G) :
    ∀ (rules : List (Rule φ σ ε)) (done entries : List (Rule φ σ ε × Bool)) (s s' : σ),
      I (done.map Prod.fst ++ rules) s → (∀ entry ∈ done, entry.2 = true → G entry.1 s) →
      setUp fds rules s = .ok (entries, s') →
      I ((done ++ entries).map Prod.fst) s'
        ∧ ∀ entry ∈ done ++ entries, entry.2 = true → G entry.1 s' := by
  intro rules
  induction rules with
  | nil =>
      intro done entries s s' hI hG hset
      obtain ⟨rfl, rfl⟩ := Prod.mk.inj (Except.ok.inj hset)
      rw [List.append_nil] at hI ⊢
      exact ⟨hI, hG⟩
  | cons rule rules ih =>
      intro done entries s s' hI hG hset
      rcases setUp_cons hset with ⟨hended, s₁, hcancel, hrest⟩ | ⟨hended, rest, rfl, hrest⟩
      · obtain ⟨hI₁, hkeep⟩ := h.cancel _ rule rules s s₁ hI (Or.inl hended) hcancel
        refine ih done entries s₁ s' hI₁ (fun entry hentry htrue => ?_) hrest
        refine hkeep entry.1 (List.mem_append_left _ ?_) (hG entry hentry htrue)
        exact List.mem_map_of_mem hentry
      · have hmore := ih (done ++ [(rule, rule.interest s)]) rest s s' (by simpa using hI) ?_ hrest
        · rwa [List.append_assoc] at hmore
        · intro entry hentry htrue
          rcases List.mem_append.mp hentry with hold | hnew
          · exact hG entry hold htrue
          · rw [List.mem_singleton.mp hnew] at htrue ⊢
            exact h.interest _ s rule hI (by simp) hended htrue

/-- Going through the answers: `done` are the rules behind. -/
theorem serve {revents : φ → Direction → Revents} (h : Keeps fds (.answered revents) I G) :
    ∀ (entries : List (Rule φ σ ε × Bool)) (done rules : List (Rule φ σ ε)) (s s' : σ),
      I (done ++ entries.map Prod.fst) s → (∀ entry ∈ entries, entry.2 = true → G entry.1 s) →
      serve fds revents entries s = .ok (rules, s') → I (done ++ rules) s' := by
  intro entries
  induction entries with
  | nil =>
      intro done rules s s' hI _ hserve
      obtain ⟨rfl, rfl⟩ := Prod.mk.inj (Except.ok.inj hserve)
      exact hI
  | cons entry entries ih =>
      intro done rules s s' hI hG hserve
      obtain ⟨rule, events⟩ := entry
      have hafter : ∀ s₁, (∀ r' ∈ done ++ entries.map Prod.fst, G r' s → G r' s₁) →
          ∀ entry ∈ entries, entry.2 = true → G entry.1 s₁ := by
        intro s₁ hkeep entry hentry htrue
        refine hkeep entry.1 (List.mem_append_right _ (List.mem_map_of_mem hentry)) ?_
        exact hG entry (List.mem_cons_of_mem _ hentry) htrue
      rcases serve_cons hserve with
        ⟨⟨-, -, hhup⟩, s₁, hcancel, hrest⟩ | ⟨⟨hevents, -⟩, s₁, rules₁, hcall, rfl, hrest⟩
          | ⟨-, -, rules₁, rfl, hrest⟩
      · obtain ⟨hI₁, hkeep⟩ := h.cancel _ rule _ s s₁ hI (Or.inr ⟨revents, rfl, hhup⟩) hcancel
        exact ih done rules s₁ s' hI₁ (hafter s₁ hkeep) hrest
      · have hready := hG (rule, events) (List.mem_cons_self ..) hevents
        obtain ⟨hI₁, hkeep⟩ := h.callback _ rule _ s s₁ hI hready (callBack_ok hcall)
        have hmore := ih (done ++ [rule]) rules₁ s₁ s' (by simpa using hI₁)
          (hafter s₁ hkeep) hrest
        rwa [List.append_assoc] at hmore
      · have hmore := ih (done ++ [rule]) rules₁ s s' (by simpa using hI)
          (hafter s fun _ _ hg => hg) hrest
        rwa [List.append_assoc] at hmore

/-- **EVERY WAIT KEEPS IT**. -/
theorem wait {rules rules' : List (Rule φ σ ε)} {s s' : σ} {result : Result}
    (h : Keeps fds poll I G) (hI : I rules s)
    (hwait : waitNextEvent fds rules poll s = .ok (result, rules', s')) : I rules' s' := by
  obtain ⟨entries, s₁, hset, hrest⟩ := waitNextEvent_ok hwait
  obtain ⟨hI₁, hG⟩ := h.setUp rules [] entries s s₁ hI (fun _ hentry => absurd hentry (by simp)) hset
  rw [List.nil_append] at hI₁ hG
  rcases hrest with ⟨-, rfl, rfl, -⟩ | ⟨-, revents, rfl, hserve⟩
  · exact hI₁
  · exact h.serve entries [] rules' s₁ s' hI₁ hG hserve

end Keeps

/-! ## When the loop exits, and when it raises -/

section Ends

variable {φ σ ε : Type} {fds : σ → φ → FDWrapper}

/-- Cancelling `rule` does not wake `other`. -/
def Quiet (other rule : Rule φ σ ε) : Prop :=
  ∀ s s', rule.cancel s = .ok s' → other.interest s = false → other.interest s' = false

theorem setUp_quiet {other : Rule φ σ ε} :
    ∀ (rules : List (Rule φ σ ε)) (entries : List (Rule φ σ ε × Bool)) (s s' : σ),
      (∀ rule ∈ rules, Quiet other rule) → setUp fds rules s = .ok (entries, s') →
      other.interest s = false → other.interest s' = false := by
  intro rules
  induction rules with
  | nil =>
      intro entries s s' _ hset hno
      obtain ⟨-, rfl⟩ := Prod.mk.inj (Except.ok.inj hset)
      exact hno
  | cons rule rules ih =>
      intro entries s s' hquiet hset hno
      have hrules := fun r hr => hquiet r (List.mem_cons_of_mem rule hr)
      rcases setUp_cons hset with ⟨-, s₁, hcancel, hrest⟩ | ⟨-, rest, rfl, hrest⟩
      · exact ih entries s₁ s' hrules hrest (hquiet rule (List.mem_cons_self ..) s s₁ hcancel hno)
      · exact ih rest s s' hrules hrest hno

/-- An entry that is not polled has a rule that is not interested, also when all is set
    up. -/
theorem setUp_uninterested :
    ∀ (rules : List (Rule φ σ ε)) (entries : List (Rule φ σ ε × Bool)) (s s' : σ),
      rules.Pairwise Quiet → setUp fds rules s = .ok (entries, s') →
      ∀ entry ∈ entries, entry.2 = false → entry.1.interest s' = false := by
  intro rules
  induction rules with
  | nil =>
      intro entries s s' _ hset entry hentry
      obtain ⟨rfl, -⟩ := Prod.mk.inj (Except.ok.inj hset)
      exact absurd hentry List.not_mem_nil
  | cons rule rules ih =>
      intro entries s s' hquiet hset entry hentry hfalse
      obtain ⟨hrule, hrules⟩ := List.pairwise_cons.mp hquiet
      rcases setUp_cons hset with ⟨-, s₁, -, hrest⟩ | ⟨-, rest, rfl, hrest⟩
      · exact ih entries s₁ s' hrules hrest entry hentry hfalse
      · rcases List.mem_cons.mp hentry with rfl | hentry
        · exact setUp_quiet rules rest s s' hrule hrest hfalse
        · exact ih rest s s' hrules hrest entry hentry hfalse

/-- **AN EXIT** that is no interruption: no rule that is left is interested. -/
theorem exit_uninterested {rules rules' : List (Rule φ σ ε)} {poll : Poll φ} {s s' : σ}
    (hquiet : rules.Pairwise Quiet) (hpoll : poll ≠ .interrupted)
    (h : waitNextEvent fds rules poll s = .ok (.exit, rules', s')) :
    ∀ rule ∈ rules', rule.interest s' = false := by
  obtain ⟨entries, s₁, hset, ⟨-, rfl, rfl, hexit⟩ | ⟨hsuccess, -⟩⟩ := waitNextEvent_ok h
  · intro rule hrule
    obtain ⟨entry, hentry, rfl⟩ := List.mem_map.mp hrule
    rcases hexit rfl with hinterrupted | hnone
    · exact absurd hinterrupted hpoll
    · exact setUp_uninterested rules entries s s' hquiet hset entry hentry (hnone entry hentry)
  · exact absurd hsuccess (by decide)

/-- The callback reads or writes its descriptor, or its rule is no longer interested. -/
def Rule.Acts (fds : σ → φ → FDWrapper) (rule : Rule φ σ ε) : Prop :=
  ∀ s s', rule.callback s = .ok s' →
    rule.serviceCount fds s' ≠ rule.serviceCount fds s ∨ rule.interest s' = false

theorem cancel_never_busy (rule : Rule φ σ ε) (s : σ) :
    (rule.cancel s).mapError LoopError.thrown ≠ .error .busyWait := by
  intro h
  obtain ⟨e, -, he⟩ := mapError_eq_error.mp h
  cases he

theorem setUp_never_busy (rules : List (Rule φ σ ε)) (s : σ) :
    setUp fds rules s ≠ .error .busyWait := by
  induction rules generalizing s with
  | nil =>
      intro h
      cases h
  | cons rule rules ih =>
      intro h
      rw [setUp] at h
      split_ifs at h
      · rcases bind_eq_error.mp h with hcancel | ⟨s₁, -, hrest⟩
        · exact cancel_never_busy rule s hcancel
        · exact ih s₁ hrest
      · rcases bind_eq_error.mp h with hrest | ⟨rest, -, hok⟩
        · exact ih s hrest
        · cases hok

theorem callBack_never_busy {rule : Rule φ σ ε} (hacts : rule.Acts fds) (s : σ) :
    callBack fds rule s ≠ .error .busyWait := by
  intro h
  rcases bind_eq_error.mp h with hcall | ⟨s₁, hcall, hcheck⟩
  · obtain ⟨e, -, he⟩ := mapError_eq_error.mp hcall
    cases he
  · split_ifs at hcheck with hbusy
    rcases hacts s s₁ (mapError_eq_ok.mp hcall) with hne | hno
    · exact hne hbusy.1.symm
    · exact Bool.false_ne_true (hno.symm.trans hbusy.2)

theorem serve_never_busy {revents : φ → Direction → Revents} (entries : List (Rule φ σ ε × Bool))
    (hacts : ∀ entry ∈ entries, entry.1.Acts fds) (s : σ) :
    serve fds revents entries s ≠ .error .busyWait := by
  induction entries generalizing s with
  | nil =>
      intro h
      cases h
  | cons entry entries ih =>
      obtain ⟨rule, events⟩ := entry
      have hrule : rule.Acts fds := hacts (rule, events) (List.mem_cons_self ..)
      have hrest := fun s => ih (fun entry hentry => hacts entry (List.mem_cons_of_mem _ hentry)) s
      intro h
      rw [serve_cons_eq] at h
      split_ifs at h
      · cases h
      · rcases bind_eq_error.mp h with hcancel | ⟨s₁, -, hserve⟩
        · exact cancel_never_busy rule s hcancel
        · exact hrest s₁ hserve
      · rcases bind_eq_error.mp h with hcall | ⟨s₁, -, hafter⟩
        · exact callBack_never_busy hrule s hcall
        · rcases bind_eq_error.mp hafter with hserve | ⟨rest, -, hok⟩
          · exact hrest s₁ hserve
          · cases hok
      · rcases bind_eq_error.mp h with hserve | ⟨rest, -, hok⟩
        · exact hrest s hserve
        · cases hok

/-- The rules that are left are some of the rules there were. -/
theorem setUp_subset :
    ∀ (rules : List (Rule φ σ ε)) (entries : List (Rule φ σ ε × Bool)) (s s' : σ),
      setUp fds rules s = .ok (entries, s') → ∀ entry ∈ entries, entry.1 ∈ rules := by
  intro rules
  induction rules with
  | nil =>
      intro entries s s' hset entry hentry
      obtain ⟨rfl, -⟩ := Prod.mk.inj (Except.ok.inj hset)
      exact absurd hentry List.not_mem_nil
  | cons rule rules ih =>
      intro entries s s' hset entry hentry
      rcases setUp_cons hset with ⟨-, s₁, -, hrest⟩ | ⟨-, rest, rfl, hrest⟩
      · exact List.mem_cons_of_mem _ (ih entries s₁ s' hrest entry hentry)
      · rcases List.mem_cons.mp hentry with rfl | hentry
        · exact List.mem_cons_self ..
        · exact List.mem_cons_of_mem _ (ih rest s s' hrest entry hentry)

/-- **NO BUSY WAIT**, if every callback acts. -/
theorem never_busy {rules : List (Rule φ σ ε)} (hacts : ∀ rule ∈ rules, rule.Acts fds)
    (poll : Poll φ) (s : σ) : waitNextEvent fds rules poll s ≠ .error .busyWait := by
  intro h
  rcases bind_eq_error.mp h with hset | ⟨⟨entries, s₁⟩, hset, hrest⟩
  · exact setUp_never_busy rules s hset
  · have hentries : ∀ entry ∈ entries, entry.1.Acts fds := fun entry hentry =>
      hacts entry.1 (setUp_subset rules entries s s₁ hset entry hentry)
    unfold pollEntries at hrest
    dsimp only at hrest
    split_ifs at hrest
    cases poll with
    | timeout => cases hrest
    | interrupted => cases hrest
    | answered revents =>
        rcases bind_eq_error.mp hrest with hserve | ⟨rest, -, hok⟩
        · exact serve_never_busy entries hentries s₁ hserve
        · cases hok

end Ends

/-! ## Which functions are called -/

/-- A function of the `i`-th rule was called. -/
inductive Action where
  | called (i : Nat)
  | cancelled (i : Nat)
deriving DecidableEq, Repr

def Action.index : Action → Nat
  | called i => i
  | cancelled i => i

section Trace

variable {φ σ ε : Type}

/-- The `i`-th rule, which also notes what it does. -/
def Rule.traced (rule : Rule φ σ ε) (i : Nat) : Rule φ (σ × List Action) ε where
  fd := rule.fd
  direction := rule.direction
  callback x := (rule.callback x.1).map fun s => (s, x.2 ++ [.called i])
  interest x := rule.interest x.1
  cancel x := (rule.cancel x.1).map fun s => (s, x.2 ++ [.cancelled i])

/-- Rules, given by their numbers, that note what they do. -/
def traced (rule : Nat → Rule φ σ ε) (ids : List Nat) : List (Rule φ (σ × List Action) ε) :=
  ids.map fun i => (rule i).traced i

/-- What is done about a rule that is or is not interested, on an answer. -/
def respond (revents : φ → Direction → Revents) (rule : Nat → Rule φ σ ε) (entry : Nat × Bool) :
    Option Action :=
  if HungUp revents (rule entry.1) entry.2 then some (.cancelled entry.1)
  else if Ready revents (rule entry.1) entry.2 then some (.called entry.1)
  else none

variable {fds : σ → φ → FDWrapper} {rule : Nat → Rule φ σ ε}

/-- **EACH RULE IN ITS TURN**: one whose descriptor has ended is cancelled and dropped, and
    any other is kept with what its interest says at that moment; `s'` is the state after the
    last of them. -/
inductive Asked (fds : σ → φ → FDWrapper) (rule : Nat → Rule φ σ ε) :
    List Nat → σ → List (Nat × Bool) → List Nat → σ → Prop
  | none (s : σ) : Asked fds rule [] s [] [] s
  | drop {i : Nat} {ids dropped : List Nat} {kept : List (Nat × Bool)} {s s₁ s' : σ}
      (ended : (rule i).ended fds s = true) (cancel : (rule i).cancel s = .ok s₁)
      (rest : Asked fds rule ids s₁ kept dropped s') :
      Asked fds rule (i :: ids) s kept (i :: dropped) s'
  | keep {i : Nat} {ids dropped : List Nat} {kept : List (Nat × Bool)} {s s' : σ}
      (live : (rule i).ended fds s = false) (rest : Asked fds rule ids s kept dropped s') :
      Asked fds rule (i :: ids) s ((i, (rule i).interest s) :: kept) dropped s'

namespace Asked

variable {ids dropped : List Nat} {kept : List (Nat × Bool)} {s s' : σ}

theorem perm (h : Asked fds rule ids s kept dropped s') :
    (kept.map Prod.fst ++ dropped).Perm ids := by
  induction h with
  | none s => exact .refl _
  | drop _ _ _ ih => exact List.perm_middle.trans (ih.cons _)
  | keep _ _ ih => exact ih.cons _

theorem sublist (h : Asked fds rule ids s kept dropped s') :
    (kept.map Prod.fst).Sublist ids := by
  induction h with
  | none s => exact .slnil
  | drop _ _ _ ih => exact ih.cons _
  | keep _ _ ih => exact ih.cons_cons _

/-- It is what setting up does. -/
theorem setUp_eq (h : Asked fds rule ids s kept dropped s') :
    setUp fds (ids.map rule) s = .ok (kept.map (fun e => (rule e.1, e.2)), s') := by
  induction h with
  | none s => rfl
  | drop ended cancel _ ih =>
      rw [List.map_cons, setUp, if_pos ended, mapError_eq_ok.mpr cancel]
      exact ih
  | keep live _ ih =>
      rw [List.map_cons, setUp, live, if_neg Bool.false_ne_true, ih]
      rfl

end Asked

/-- Setting up, with notes: the rules that were dropped were cancelled, in order. -/
theorem setUp_traced :
    ∀ (ids : List Nat) (x y : σ × List Action)
      (entries : List (Rule φ (σ × List Action) ε × Bool)),
      setUp (fun x => fds x.1) (traced rule ids) x = .ok (entries, y) →
      ∃ (kept : List (Nat × Bool)) (dropped : List Nat),
        entries = kept.map (fun e => ((rule e.1).traced e.1, e.2))
        ∧ Asked fds rule ids x.1 kept dropped y.1
        ∧ y.2 = x.2 ++ dropped.map .cancelled := by
  intro ids
  induction ids with
  | nil =>
      intro x y entries hset
      obtain ⟨rfl, rfl⟩ := Prod.mk.inj (Except.ok.inj hset)
      exact ⟨[], [], rfl, .none x.1, (List.append_nil _).symm⟩
  | cons i ids ih =>
      intro x y entries hset
      rcases setUp_cons hset with ⟨hended, x₁, hcancel, hrest⟩ | ⟨hended, rest, rfl, hrest⟩
      · obtain ⟨s₁, hs₁, rfl⟩ := map_eq_ok.mp hcancel
        obtain ⟨kept, dropped, rfl, hasked, hnotes⟩ := ih _ y entries hrest
        refine ⟨kept, i :: dropped, rfl, .drop hended hs₁ hasked, ?_⟩
        rw [hnotes, List.append_assoc]
        rfl
      · obtain ⟨kept, dropped, rfl, hasked, hnotes⟩ := ih x y rest hrest
        exact ⟨(i, (rule i).interest x.1) :: kept, dropped, rfl, .keep hended hasked, hnotes⟩

theorem callBack_traced {i : Nat} {x y : σ × List Action}
    (h : callBack (fun x => fds x.1) ((rule i).traced i) x = .ok y) :
    callBack fds (rule i) x.1 = .ok y.1 ∧ y.2 = x.2 ++ [.called i] := by
  obtain ⟨x₁, hcall, hcheck⟩ := bind_eq_ok.mp h
  obtain ⟨s₁, hs₁, rfl⟩ := map_eq_ok.mp (mapError_eq_ok.mp hcall)
  split_ifs at hcheck with hbusy
  obtain rfl := Except.ok.inj hcheck
  refine ⟨?_, rfl⟩
  rw [callBack, mapError_eq_ok.mpr hs₁]
  exact if_neg hbusy

/-- Going through the answers, with notes. -/
theorem serve_traced {revents : φ → Direction → Revents} :
    ∀ (kept : List (Nat × Bool)) (x y : σ × List Action)
      (rules : List (Rule φ (σ × List Action) ε)),
      serve (fun x => fds x.1) revents (kept.map fun e => ((rule e.1).traced e.1, e.2)) x
        = .ok (rules, y) →
      ∃ ids : List Nat, rules = traced rule ids
        ∧ ids = (kept.filter fun e => respond revents rule e ≠ some (.cancelled e.1)).map Prod.fst
        ∧ y.2 = x.2 ++ kept.filterMap (respond revents rule)
        ∧ serve fds revents (kept.map fun e => (rule e.1, e.2)) x.1 = .ok (ids.map rule, y.1) := by
  intro kept
  induction kept with
  | nil =>
      intro x y rules hserve
      obtain ⟨rfl, rfl⟩ := Prod.mk.inj (Except.ok.inj hserve)
      exact ⟨[], rfl, rfl, (List.append_nil _).symm, rfl⟩
  | cons entry kept ih =>
      intro x y rules hserve
      obtain ⟨i, events⟩ := entry
      rw [List.map_cons] at hserve
      have hfailed : ¬ (revents ((rule i).traced i).fd ((rule i).traced i).direction).failed = true :=
        serve_not_failed hserve
      have hfailed : ¬ (revents (rule i).fd (rule i).direction).failed = true := hfailed
      rw [List.map_cons, serve_cons_eq, if_neg hfailed]
      rcases serve_cons hserve with
        ⟨hhup, x₁, hcancel, hrest⟩ | ⟨hready, x₁, rules₁, hcall, rfl, hrest⟩
          | ⟨hhup, hready, rules₁, rfl, hrest⟩
      · obtain ⟨s₁, hs₁, rfl⟩ := map_eq_ok.mp hcancel
        obtain ⟨ids, rfl, hids, hnotes, hplain⟩ := ih _ y rules hrest
        have hhup : HungUp revents (rule i) events := hhup
        have hrespond : respond revents rule (i, events) = some (.cancelled i) := if_pos hhup
        refine ⟨ids, rfl, ?_, ?_, ?_⟩
        · rw [hids, List.filter_cons_of_neg (by simp [hrespond])]
        · rw [hnotes, List.filterMap_cons_some hrespond, List.append_assoc]
          rfl
        · rw [if_pos hhup, mapError_eq_ok.mpr hs₁]
          exact hplain
      · obtain ⟨hplainCall, hnote⟩ := callBack_traced hcall
        obtain ⟨ids, rfl, hids, hnotes, hplain⟩ := ih _ y rules₁ hrest
        have hready : Ready revents (rule i) events := hready
        have hhup : ¬ HungUp revents (rule i) events := fun h =>
          Bool.false_ne_true (h.2.1.symm.trans hready.2)
        have hrespond : respond revents rule (i, events) = some (.called i) :=
          (if_neg hhup).trans (if_pos hready)
        refine ⟨i :: ids, rfl, ?_, ?_, ?_⟩
        · rw [hids, List.filter_cons_of_pos (by simp [hrespond])]
          rfl
        · rw [hnotes, hnote, List.filterMap_cons_some hrespond, List.append_assoc]
          rfl
        · rw [if_neg hhup, if_pos hready, hplainCall]
          show (serve fds revents _ x₁.1 >>= _) = _
          rw [hplain]
          rfl
      · obtain ⟨ids, rfl, hids, hnotes, hplain⟩ := ih _ y rules₁ hrest
        have hhup : ¬ HungUp revents (rule i) events := hhup
        have hready : ¬ Ready revents (rule i) events := hready
        have hrespond : respond revents rule (i, events) = none :=
          (if_neg hhup).trans (if_neg hready)
        refine ⟨i :: ids, rfl, ?_, ?_, ?_⟩
        · rw [hids, List.filter_cons_of_pos (by simp [hrespond])]
          rfl
        · rw [hnotes, List.filterMap_cons_none hrespond]
        · rw [if_neg hhup, if_neg hready, hplain]
          rfl

/-- A response is about its own entry. -/
theorem index_filterMap_respond (rule : Nat → Rule φ σ ε) (revents : φ → Direction → Revents)
    (kept : List (Nat × Bool)) :
    ((kept.filterMap (respond revents rule)).map Action.index).Sublist (kept.map Prod.fst) := by
  induction kept with
  | nil => exact .slnil
  | cons entry kept ih =>
      cases hrespond : respond revents rule entry with
      | none =>
          rw [List.filterMap_cons_none hrespond]
          exact ih.cons _
      | some a =>
          have hindex : a.index = entry.1 := by
            rw [respond] at hrespond
            split_ifs at hrespond
            · rw [← Option.some.inj hrespond]
              rfl
            · rw [← Option.some.inj hrespond]
              rfl
          rw [List.filterMap_cons_some hrespond, List.map_cons, List.map_cons, hindex]
          exact ih.cons_cons _

/-- What one wait does: it cancels the rules that ended, and then responds to the answers
    if there are any. -/
structure Waited (rule : Nat → Rule φ σ ε) (fds : σ → φ → FDWrapper) (poll : Poll φ)
    (ids : List Nat) (x : σ × List Action) (result : Result) (ids' : List Nat)
    (y : σ × List Action) : Prop where
  plain : waitNextEvent fds (ids.map rule) poll x.1 = .ok (result, ids'.map rule, y.1)
  notes : ∃ (kept : List (Nat × Bool)) (dropped : List Nat) (s₁ : σ),
    Asked fds rule ids x.1 kept dropped s₁
    ∧ ((result ≠ .success ∧ ids' = kept.map Prod.fst ∧ y.2 = x.2 ++ dropped.map .cancelled)
      ∨ (result = .success ∧ ∃ revents, poll = .answered revents
        ∧ ids' = (kept.filter fun e => respond revents rule e ≠ some (.cancelled e.1)).map Prod.fst
        ∧ y.2 = x.2 ++ (dropped.map .cancelled ++ kept.filterMap (respond revents rule))))

theorem waited {poll : Poll φ} {ids : List Nat} {x y : σ × List Action} {result : Result}
    {rules : List (Rule φ (σ × List Action) ε)}
    (h : waitNextEvent (fun x => fds x.1) (traced rule ids) poll x = .ok (result, rules, y)) :
    ∃ ids', rules = traced rule ids' ∧ Waited rule fds poll ids x result ids' y := by
  obtain ⟨⟨entries, y₁⟩, hset, hrest⟩ := bind_eq_ok.mp h
  obtain ⟨kept, dropped, rfl, hasked, hnotes⟩ := setUp_traced ids x y₁ entries hset
  have hall : ((kept.map fun e => (rule e.1, e.2)).all fun entry => !entry.2)
      = (kept.map fun e => ((rule e.1).traced e.1, e.2)).all fun entry => !entry.2 := by
    rw [List.all_map, List.all_map]
    rfl
  have hfst : (kept.map fun e => ((rule e.1).traced e.1, e.2)).map Prod.fst
      = traced rule (kept.map Prod.fst) := by
    rw [traced, List.map_map, List.map_map]
    rfl
  have hfst' : (kept.map fun e => (rule e.1, e.2)).map Prod.fst = (kept.map Prod.fst).map rule := by
    rw [List.map_map, List.map_map]
    rfl
  have hwait : waitNextEvent fds (ids.map rule) poll x.1
      = pollEntries fds poll (kept.map fun e => (rule e.1, e.2)) y₁.1 := by
    rw [waitNextEvent, hasked.setUp_eq]
    rfl
  have hunpolled : result ≠ .success → rules = traced rule (kept.map Prod.fst) → y = y₁ →
      waitNextEvent fds (ids.map rule) poll x.1
        = .ok (result, (kept.map Prod.fst).map rule, y₁.1) →
      ∃ ids', rules = traced rule ids' ∧ Waited rule fds poll ids x result ids' y := by
    rintro hresult rfl rfl heq
    exact ⟨_, rfl, heq, kept, dropped, _, hasked, Or.inl ⟨hresult, rfl, hnotes⟩⟩
  unfold pollEntries at hrest hwait
  dsimp only at hrest hwait
  rw [hfst] at hrest
  rw [hfst', hall] at hwait
  split_ifs at hrest hwait with hquiet
  · simp only [Except.ok.injEq, Prod.mk.injEq] at hrest
    obtain ⟨rfl, hrules, hy⟩ := hrest
    exact hunpolled (by decide) hrules.symm hy.symm hwait
  · cases poll with
    | timeout =>
        simp only [Except.ok.injEq, Prod.mk.injEq] at hrest
        obtain ⟨rfl, hrules, hy⟩ := hrest
        exact hunpolled (by decide) hrules.symm hy.symm hwait
    | interrupted =>
        simp only [Except.ok.injEq, Prod.mk.injEq] at hrest
        obtain ⟨rfl, hrules, hy⟩ := hrest
        exact hunpolled (by decide) hrules.symm hy.symm hwait
    | answered revents =>
        obtain ⟨⟨rules₁, y₂⟩, hserve, heq⟩ := bind_eq_ok.mp hrest
        simp only [Except.ok.injEq, Prod.mk.injEq] at heq
        obtain ⟨rfl, rfl, rfl⟩ := heq
        obtain ⟨ids', rfl, hids, hmore, hplainServe⟩ := serve_traced kept y₁ y₂ rules₁ hserve
        refine ⟨ids', rfl, ?_, kept, dropped, y₁.1, hasked,
          Or.inr ⟨rfl, revents, rfl, hids, ?_⟩⟩
        · rw [hwait]
          dsimp only
          rw [hplainServe]
          rfl
        · rw [hmore, hnotes, List.append_assoc]

/-- Nothing is noted about a rule after it was cancelled. -/
def Final (notes : List Action) : Prop := AtEach (fun before a => .cancelled a.index ∉ before) notes

/-- Notes about different rules, none of them cancelled before, can be added. -/
theorem Final.append {ids : List Nat} {notes more : List Action} (h : Final notes)
    (hlive : ∀ i ∈ ids, .cancelled i ∉ notes) (hids : ∀ a ∈ more, a.index ∈ ids)
    (hnodup : (more.map Action.index).Nodup) : Final (notes ++ more) := by
  refine AtEach.append h ?_
  rintro pre a post rfl hmem
  rcases List.mem_append.mp hmem with hold | hnew
  · exact hlive _ (hids a (by simp)) hold
  · rw [List.map_append, List.map_cons] at hnodup
    have hmem : a.index ∈ pre.map Action.index := List.mem_map.mpr ⟨_, hnew, rfl⟩
    exact List.disjoint_of_nodup_append hnodup hmem (List.mem_cons_self ..)

/-- One wait keeps the notes final and the rules that are left live. -/
theorem Waited.final {poll : Poll φ} {ids ids' : List Nat} {x y : σ × List Action}
    {result : Result} (h : Waited rule fds poll ids x result ids' y) (hnodup : ids.Nodup)
    (hfinal : Final x.2) (hlive : ∀ i ∈ ids, .cancelled i ∉ x.2) :
    ids'.Sublist ids ∧ Final y.2 ∧ ∀ i ∈ ids', .cancelled i ∉ y.2 := by
  obtain ⟨kept, dropped, s₁, hasked, hrest⟩ := h.notes
  have hperm := hasked.perm
  have hsub := hasked.sublist
  have hall : (kept.map Prod.fst ++ dropped).Nodup := hperm.nodup_iff.mpr hnodup
  have hdropped : ∀ i ∈ kept.map Prod.fst, i ∉ dropped := fun i hi hd =>
    List.disjoint_of_nodup_append hall hi hd
  have hin : ∀ i ∈ dropped, i ∈ ids := fun i hi =>
    hperm.mem_iff.mp (List.mem_append_right _ hi)
  have hindex : (dropped.map Action.cancelled).map Action.index = dropped := by
    rw [List.map_map]
    exact List.map_id dropped
  rcases hrest with ⟨-, rfl, hy⟩ | ⟨-, revents, -, rfl, hy⟩
  · rw [hy]
    refine ⟨hsub, hfinal.append hlive ?_ ?_, fun i hi hmem => ?_⟩
    · intro a ha
      obtain ⟨i, hi, rfl⟩ := List.mem_map.mp ha
      exact hin i hi
    · rw [hindex]
      exact hall.of_append_right
    · rcases List.mem_append.mp hmem with hold | hnew
      · exact hlive i (hsub.subset hi) hold
      · obtain ⟨j, hj, heq⟩ := List.mem_map.mp hnew
        obtain rfl := Action.cancelled.inj heq
        exact hdropped j hi hj
  · have hresponses := index_filterMap_respond rule revents kept
    rw [hy]
    refine ⟨(List.Sublist.map _ List.filter_sublist).trans hsub, hfinal.append hlive ?_ ?_,
      fun i hi hmem => ?_⟩
    · intro a ha
      rcases List.mem_append.mp ha with hd | hr
      · obtain ⟨i, hi, rfl⟩ := List.mem_map.mp hd
        exact hin i hi
      · exact hsub.subset (hresponses.subset (List.mem_map_of_mem hr))
    · rw [List.map_append, hindex]
      have hswap : (dropped ++ kept.map Prod.fst).Nodup :=
        (List.perm_append_comm.nodup_iff).mp hall
      exact hswap.sublist ((List.Sublist.refl dropped).append hresponses)
    · obtain ⟨entry, hentry, rfl⟩ := List.mem_map.mp hi
      obtain ⟨hkept, hnot⟩ := List.mem_filter.mp hentry
      have hfst : entry.1 ∈ kept.map Prod.fst := List.mem_map_of_mem hkept
      rcases List.mem_append.mp hmem with hold | hnew
      · exact hlive _ (hsub.subset hfst) hold
      · rcases List.mem_append.mp hnew with hd | hr
        · obtain ⟨j, hj, heq⟩ := List.mem_map.mp hd
          obtain rfl := Action.cancelled.inj heq
          exact hdropped _ hfst hj
        · -- the cancelled ones are not kept
          obtain ⟨other, hother, hrespond⟩ := List.mem_filterMap.mp hr
          have hsame : other.1 = entry.1 := by
            rw [respond] at hrespond
            split_ifs at hrespond
            · exact Action.cancelled.inj (Option.some.inj hrespond)
            · cases Option.some.inj hrespond
          have hother : other = entry :=
            List.inj_on_of_nodup_map hall.of_append_left hother hkept hsame
          rw [hother] at hrespond
          exact of_decide_eq_true hnot hrespond

/-- Every run, with notes and without. -/
theorem run_traced :
    ∀ (polls : List (Poll φ)) (ids : List Nat) (x y : σ × List Action)
      (rules : List (Rule φ (σ × List Action) ε)),
      ids.Nodup → Final x.2 → (∀ i ∈ ids, .cancelled i ∉ x.2) →
      run (wait fun x => fds x.1) (traced rule ids, x) polls = some (rules, y) →
      ∃ ids', rules = traced rule ids' ∧ ids'.Sublist ids
        ∧ run (wait fds) (ids.map rule, x.1) polls = some (ids'.map rule, y.1)
        ∧ Final y.2 ∧ ∀ i ∈ ids', .cancelled i ∉ y.2 := by
  intro polls
  induction polls with
  | nil =>
      intro ids x y rules _ hfinal hlive hrun
      obtain ⟨rfl, rfl⟩ := Prod.mk.inj (Option.some.inj hrun)
      exact ⟨ids, rfl, .refl ids, rfl, hfinal, hlive⟩
  | cons poll polls ih =>
      intro ids x y rules hnodup hfinal hlive hrun
      obtain ⟨⟨rules₁, x₁⟩, hwait, hrest⟩ := Option.bind_eq_some_iff.mp hrun
      obtain ⟨result, hresult⟩ := wait_eq_some hwait
      obtain ⟨ids₁, rfl, hwaited⟩ := waited hresult
      obtain ⟨hsub, hfinal₁, hlive₁⟩ := hwaited.final hnodup hfinal hlive
      obtain ⟨ids', rfl, hsub', hplain, hdone⟩ :=
        ih ids₁ x₁ y rules (hnodup.sublist hsub) hfinal₁ hlive₁ hrest
      refine ⟨ids', rfl, hsub'.trans hsub, ?_, hdone⟩
      have hstep : wait fds (ids.map rule, x.1) poll = some (ids₁.map rule, x₁.1) := by
        rw [wait, hwaited.plain]
      rw [run, hstep]
      exact hplain

/-- **WHICH FUNCTIONS ARE CALLED**, in any run of the loop over any rules.  The notes do not
    change what the loop does; nothing is ever called of a rule that was cancelled, and the
    rules that are left were not.  A wait that answers first cancels, once and each in its
    turn, the rules whose descriptors have ended, asks all others, and then calls back, once
    and in order, exactly those that were interested and are ready, and cancels those that
    were interested and hung up. -/
theorem acted_exactly (fds : σ → φ → FDWrapper) (rule : Nat → Rule φ σ ε) (n : Nat) (s s' : σ)
    (polls : List (Poll φ)) (rules : List (Rule φ (σ × List Action) ε)) (notes : List Action)
    (hrun : run (wait fun x => fds x.1) (traced rule (List.range n), (s, [])) polls
      = some (rules, (s', notes))) :
    ∃ ids, rules = traced rule ids ∧ ids.Sublist (List.range n)
      ∧ run (wait fds) ((List.range n).map rule, s) polls = some (ids.map rule, s')
      ∧ AtEach (fun before a => .cancelled a.index ∉ before) notes
      ∧ (∀ i ∈ ids, .cancelled i ∉ notes)
      ∧ ∀ (revents : φ → Direction → Revents) (rules' : List (Rule φ (σ × List Action) ε))
          (s'' : σ) (notes' : List Action),
        waitNextEvent (fun x => fds x.1) rules (.answered revents) (s', notes)
          = .ok (.success, rules', s'', notes') →
        ∃ (kept : List (Nat × Bool)) (dropped : List Nat) (s₁ : σ),
          Asked fds rule ids s' kept dropped s₁
            ∧ setUp fds (ids.map rule) s' = .ok (kept.map (fun e => (rule e.1, e.2)), s₁)
            ∧ (kept.map Prod.fst ++ dropped).Perm ids ∧ (kept.map Prod.fst).Sublist ids
            ∧ notes' = notes
              ++ (dropped.map .cancelled ++ kept.filterMap (respond revents rule)) := by
  obtain ⟨ids, rfl, hsub, hplain, hfinal, hlive⟩ := run_traced polls (List.range n) (s, []) _ rules
    List.nodup_range (atEach_nil _) (fun _ _ => List.not_mem_nil) hrun
  refine ⟨ids, rfl, hsub, hplain, hfinal, hlive, ?_⟩
  intro revents rules' s'' notes' hwait
  obtain ⟨ids', -, hwaited⟩ := waited hwait
  obtain ⟨kept, dropped, s₁, hasked, ⟨hresult, -⟩ | ⟨-, revents', hpoll, -, hnotes⟩⟩ :=
    hwaited.notes
  · exact absurd rfl hresult
  · obtain rfl := Poll.answered.inj hpoll
    exact ⟨kept, dropped, s₁, hasked, hasked.setUp_eq, hasked.perm, hasked.sublist, hnotes⟩

end Trace

/-- Rules that count the reads of their descriptors, for a state that is that count. -/
def tallyRule (i : Nat) : Rule Nat Nat String where
  fd := i
  direction := .In
  callback s := .ok (s + 1)

/-- The first of two descriptors is readable, the second has hung up. -/
def firstReadable : Poll Nat :=
  .answered fun fd _ => if fd = 0 then { pollin := true } else { pollhup := true }

/-- The first rule is called, the second cancelled; then only the first is called. -/
theorem acted_exactly_tally :
    ∃ rules notes,
      run (wait fun x _ => { readCount := BitVec.ofNat 32 x.1 })
          (traced tallyRule (List.range 2), (0, [])) [firstReadable, firstReadable]
        = some (rules, (2, notes))
      ∧ notes = [.called 0, .cancelled 1, .called 0]
      ∧ AtEach (fun before a => .cancelled a.index ∉ before) notes := by
  have hrun : run (wait fun x _ => { readCount := BitVec.ofNat 32 x.1 })
      (traced tallyRule (List.range 2), (0, [])) [firstReadable, firstReadable]
        = some (traced tallyRule [0], (2, [.called 0, .cancelled 1, .called 0])) := rfl
  obtain ⟨ids, -, -, -, hfinal, -⟩ := acted_exactly (fun x _ => { readCount := BitVec.ofNat 32 x })
    tallyRule 2 0 2 [firstReadable, firstReadable] _ _ hrun
  exact ⟨_, _, hrun, rfl, hfinal⟩

end SpongeEventLoop
