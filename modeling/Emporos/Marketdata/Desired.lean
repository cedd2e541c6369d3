import Emporos.Async.Schedule
import Emporos.Marketdata.Subscriptions
import Mathlib.Data.Finset.Card
import Mathlib.Data.Finset.Lattice.Lemmas
/-!
# What is wanted is what is subscribed

However the callers, the reconnects and the failures interleave: no more
instruments are wanted than the cap allows; what a connection carries stays
within the cap; and while the lock is free, on a connection the manager has
been told of, exactly what is wanted is subscribed. A send that fails or is
cut short is made good by the next connection.
-/

namespace Emporos

namespace MarketFeed

open Async
open Instruments (Instrument)

/-! ## What the messages of a connection come to -/

namespace Message

/-- The tokens a message names, with the code of their exchange. -/
def keys (m : Message) : Finset (ℕ × String) :=
  (m.tokenList.flatMap fun batch => batch.2.map (batch.1, ·)).toFinset

/-- What is subscribed after a message. -/
def apply (subscribed : Finset (ℕ × String)) (m : Message) : Finset (ℕ × String) :=
  if m.action = SubscriptionAction.subscribe.code then subscribed ∪ m.keys
  else subscribed \ m.keys

end Message

/-- What is subscribed after the messages of a connection. -/
def live (sent : List Message) : Finset (ℕ × String) := sent.foldl Message.apply ∅

theorem live_append {sent : List Message} {m : Message} :
    live (sent ++ [m]) = Message.apply (live sent) m := by
  rw [live, List.foldl_append]
  rfl

/-- How the feed names an instrument. -/
def key (i : Instrument) : ℕ × String := ((ExchangeType.ofExchange i.exchange).code, i.token)

/-- What of a list of instruments the feed knows. -/
def keys (instruments : List Instrument) : Finset (ℕ × String) := (instruments.map key).toFinset

theorem code_injective : Function.Injective ExchangeType.code := by
  intro x y h
  cases x <;> cases y <;> first | rfl | cases h

/-- Instruments of one id are one to the feed. -/
theorem key_eq_iff {i j : Instrument} : key i = key j ↔ i.instrumentId = j.instrumentId := by
  constructor
  · intro h
    obtain ⟨hcode, htoken⟩ := Prod.mk.inj h
    have hexchange := ExchangeType.ofExchange_injective (code_injective hcode)
    rw [Instrument.instrumentId, Instrument.instrumentId, hexchange, htoken]
  · intro h
    obtain ⟨hexchange, htoken⟩ := Instrument.key_of_instrumentId h
    rw [key, key, hexchange, htoken]

theorem mem_keys {x : ℕ × String} {instruments : List Instrument} :
    x ∈ keys instruments ↔ ∃ i ∈ instruments, key i = x := by
  rw [keys, List.mem_toFinset, List.mem_map]

@[simp] theorem keys_nil : keys [] = ∅ := rfl

theorem keys_append {l l' : List Instrument} : keys (l ++ l') = keys l ∪ keys l' := by
  rw [keys, List.map_append, List.toFinset_append]
  rfl

theorem card_keys_le (l : List Instrument) : (keys l).card ≤ l.length := by
  have h := List.toFinset_card_le (l.map key)
  rwa [List.length_map] at h

/-! ## The messages of a send -/

section Chunks

variable {α : Type} {items chunk : List α} {size : ℕ} {x : α}

theorem mem_chunks : chunk ∈ chunks items size ↔
    ∃ k < (items.length + size - 1) / size, (items.drop (k * size)).take size = chunk := by
  simp only [chunks, List.mem_map, List.mem_range]

theorem length_of_mem_chunks (hsize : 0 < size) (h : chunk ∈ chunks items size) :
    1 ≤ chunk.length ∧ chunk.length ≤ size := by
  obtain ⟨k, hk, rfl⟩ := mem_chunks.mp h
  rw [List.length_take, List.length_drop]
  have hlt : k * size < items.length := by
    have hle : (k + 1) * size ≤ items.length + size - 1 :=
      (Nat.mul_le_mul_right size hk).trans (Nat.div_mul_le_self _ _)
    rw [Nat.add_mul, Nat.one_mul] at hle
    omega
  omega

/-- The chunks are all of the list. -/
theorem exists_mem_chunks (hsize : 0 < size) :
    (∃ chunk ∈ chunks items size, x ∈ chunk) ↔ x ∈ items := by
  constructor
  · rintro ⟨chunk, hchunk, hx⟩
    obtain ⟨k, -, rfl⟩ := mem_chunks.mp hchunk
    exact List.mem_of_mem_drop (List.mem_of_mem_take hx)
  · intro hx
    obtain ⟨n, hn, rfl⟩ := List.mem_iff_getElem.mp hx
    have hdiv := Nat.div_add_mod n size
    have hmod := Nat.mod_lt n hsize
    refine ⟨_, mem_chunks.mpr ⟨n / size, ?_, rfl⟩, List.mem_iff_getElem.mpr ⟨n % size, ?_, ?_⟩⟩
    · rw [Nat.div_lt_iff_lt_mul hsize]
      have hle : items.length + size - 1 < (items.length + size - 1) / size * size + size :=
        Nat.lt_div_mul_add hsize
      omega
    · rw [List.length_take, List.length_drop, Nat.mul_comm]
      omega
    · rw [List.getElem_take, List.getElem_drop]
      congr 1
      rw [Nat.mul_comm]
      exact hdiv

end Chunks

namespace FeedSubscriptionAdapter

/-- The tokens in groups. -/
def Filed (groups : List (ExchangeType × List String)) (exchange : ExchangeType) (token : String) :
    Prop := ∃ group ∈ groups, group.1 = exchange ∧ token ∈ group.2

theorem filed_file {exchange e : ExchangeType} {token t : String}
    {groups : List (ExchangeType × List String)} :
    Filed (file exchange token groups) e t ↔
      Filed groups e t ∨ (e = exchange ∧ t = token) := by
  induction groups with
  | nil => simp [Filed, file, eq_comm, and_comm]
  | cons group rest ih =>
      have hcons : ∀ {g : ExchangeType × List String} {l : List (ExchangeType × List String)},
          Filed (g :: l) e t ↔ (g.1 = e ∧ t ∈ g.2) ∨ Filed l e t := by
        intro g l
        simp [Filed]
      unfold file
      split
      · rename_i heq
        rw [hcons, hcons, List.mem_append, List.mem_singleton, heq]
        tauto
      · rw [hcons, hcons, ih]
        tauto

theorem filed_byExchange {instruments : List Instrument} {e : ExchangeType} {t : String} :
    Filed (byExchange instruments) e t ↔
      ∃ i ∈ instruments, ExchangeType.ofExchange i.exchange = e ∧ i.token = t := by
  have hfold : ∀ (l : List Instrument) (groups : List (ExchangeType × List String)),
      Filed (l.foldl (fun groups i => file (.ofExchange i.exchange) i.token groups) groups) e t ↔
        Filed groups e t ∨ ∃ i ∈ l, ExchangeType.ofExchange i.exchange = e ∧ i.token = t := by
    intro l
    induction l with
    | nil => simp
    | cons i rest ih =>
        intro groups
        rw [List.foldl_cons, ih, filed_file]
        simp only [List.mem_cons, exists_eq_or_imp, or_assoc, eq_comm (a := e), eq_comm (a := t)]
  rw [byExchange, hfold]
  simp [Filed]

/-- The tokens of one message, as the feed names them. -/
def batchKeys (batch : ExchangeType × List String) : Finset (ℕ × String) :=
  (batch.2.map (batch.1.code, ·)).toFinset

/-- The tokens of a list of messages. -/
def allKeys (l : List (ExchangeType × List String)) : Finset (ℕ × String) :=
  (l.flatMap fun batch => batch.2.map (batch.1.code, ·)).toFinset

theorem allKeys_cons {batch : ExchangeType × List String}
    {rest : List (ExchangeType × List String)} :
    allKeys (batch :: rest) = batchKeys batch ∪ allKeys rest := by
  rw [allKeys, List.flatMap_cons, List.toFinset_append]
  rfl

theorem mem_allKeys {x : ℕ × String} {l : List (ExchangeType × List String)} :
    x ∈ allKeys l ↔ ∃ batch ∈ l, ∃ token ∈ batch.2, (batch.1.code, token) = x := by
  simp only [allKeys, List.mem_toFinset, List.mem_flatMap, List.mem_map]

/-- A message of a send has tokens, and no more than fit. -/
theorem length_of_mem_batches {instruments : List Instrument}
    {batch : ExchangeType × List String} (h : batch ∈ batches instruments) :
    1 ≤ batch.2.length ∧ batch.2.length ≤ 100 := by
  obtain ⟨group, -, hbatch⟩ := List.mem_flatMap.mp h
  obtain ⟨chunk, hchunk, rfl⟩ := List.mem_map.mp hbatch
  exact length_of_mem_chunks (by decide) hchunk

/-- The messages of a send name its instruments. -/
theorem allKeys_batches {instruments : List Instrument} :
    allKeys (batches instruments) = keys instruments := by
  ext x
  rw [mem_allKeys, mem_keys]
  constructor
  · rintro ⟨batch, hbatch, token, htoken, rfl⟩
    obtain ⟨group, hgroup, hbatch⟩ := List.mem_flatMap.mp hbatch
    obtain ⟨chunk, hchunk, rfl⟩ := List.mem_map.mp hbatch
    have hmem := (exists_mem_chunks (by decide)).mp ⟨chunk, hchunk, htoken⟩
    obtain ⟨i, hi, hexchange, rfl⟩ := filed_byExchange.mp ⟨group, hgroup, rfl, hmem⟩
    exact ⟨i, hi, by rw [key, hexchange]⟩
  · rintro ⟨i, hi, rfl⟩
    obtain ⟨group, hgroup, hexchange, htoken⟩ := filed_byExchange.mpr ⟨i, hi, rfl, rfl⟩
    have hsize : 0 < tokensPerMessage := by decide
    obtain ⟨chunk, hchunk, hmem⟩ := (exists_mem_chunks hsize).mpr htoken
    refine ⟨(group.1, chunk), List.mem_flatMap.mpr ⟨group, hgroup, List.mem_map.mpr
      ⟨chunk, hchunk, rfl⟩⟩, i.token, hmem, ?_⟩
    rw [key, hexchange]

end FeedSubscriptionAdapter

open FeedSubscriptionAdapter (batchKeys allKeys)

/-! ## The manager's state -/

namespace SubscriptionManager

variable {limits : SubscriptionLimits} {m m' : SubscriptionManager} {batch new : List Instrument}

/-- Every instrument once, and no more than the cap allows. -/
structure Sound (limits : SubscriptionLimits) (m : SubscriptionManager) : Prop where
  nodup : (m.desired.map Instrument.instrumentId).Nodup
  fits : m.desired.length ≤ limits.maxTokens

theorem isSubscribed_iff {id : String} :
    m.isSubscribed id ↔ id ∈ m.desired.map Instrument.instrumentId := by
  simp [isSubscribed, List.mem_map]

theorem of_enlist (h : m.enlist limits batch = .ok (new, m')) :
    new = batch.filter (fun i => !m.isSubscribed i.instrumentId) ∧
      m' = { m with desired := m.desired ++ new } ∧
      m.desired.length + new.length ≤ limits.maxTokens := by
  unfold enlist at h
  dsimp only at h
  split_ifs at h with hcap
  obtain ⟨rfl, rfl⟩ := Prod.mk.inj (Except.ok.inj h)
  exact ⟨rfl, rfl, not_lt.mp hcap⟩

theorem Sound.enlist (hm : m.Sound limits) (hbatch : (batch.map Instrument.instrumentId).Nodup)
    (h : m.enlist limits batch = .ok (new, m')) : m'.Sound limits := by
  obtain ⟨hnew, rfl, hfits⟩ := of_enlist h
  refine ⟨?_, by simpa using hfits⟩
  rw [List.map_append, List.nodup_append']
  refine ⟨hm.nodup, ?_, ?_⟩
  · rw [hnew]
    exact hbatch.sublist (List.Sublist.map _ List.filter_sublist)
  · intro id hid hid'
    obtain ⟨i, hi, rfl⟩ := List.mem_map.mp hid'
    rw [hnew, List.mem_filter] at hi
    have hmem := isSubscribed_iff.mpr hid
    simp [hmem] at hi

theorem keys_enlist (h : m.enlist limits batch = .ok (new, m')) :
    keys m'.desired = keys m.desired ∪ keys new := by
  obtain ⟨-, rfl, -⟩ := of_enlist h
  exact keys_append

/-- What is left, and what is gone. -/
theorem pops_spec (desired instruments : List Instrument) :
    (pops desired instruments).2.Sublist desired ∧
      keys (pops desired instruments).2 = keys desired \ keys (pops desired instruments).1 := by
  induction instruments generalizing desired with
  | nil => simp [pops]
  | cons i rest ih =>
      obtain ⟨hsub, hkeys⟩ := ih (desired.filter (·.instrumentId ≠ i.instrumentId))
      have hleft : (pops desired (i :: rest)).2 =
          (pops (desired.filter (·.instrumentId ≠ i.instrumentId)) rest).2 := by
        rw [pops]
        split_ifs <;> rfl
      refine ⟨hleft ▸ hsub.trans List.filter_sublist, ?_⟩
      rw [hleft, hkeys]
      ext x
      by_cases hthere : desired.any (·.instrumentId = i.instrumentId)
      · have hgone : (pops desired (i :: rest)).1 =
            i :: (pops (desired.filter (·.instrumentId ≠ i.instrumentId)) rest).1 := by
          rw [pops]
          simp only [hthere, if_true]
        rw [hgone, Finset.mem_sdiff, Finset.mem_sdiff, mem_keys, mem_keys, mem_keys, mem_keys]
        simp only [List.mem_filter, List.mem_cons, exists_eq_or_imp, decide_eq_true_eq, not_or]
        constructor
        · rintro ⟨⟨j, ⟨hj, hne⟩, rfl⟩, hnot⟩
          exact ⟨⟨j, hj, rfl⟩, fun h => hne (key_eq_iff.mp h).symm, hnot⟩
        · rintro ⟨⟨j, hj, rfl⟩, hne, hnot⟩
          exact ⟨⟨j, ⟨hj, fun h => hne (key_eq_iff.mpr h.symm)⟩, rfl⟩, hnot⟩
      · have hgone : (pops desired (i :: rest)).1 =
            (pops (desired.filter (·.instrumentId ≠ i.instrumentId)) rest).1 := by
          rw [pops]
          simp only [hthere, if_false, Bool.false_eq_true]
        have hall : desired.filter (·.instrumentId ≠ i.instrumentId) = desired := by
          refine List.filter_eq_self.mpr fun j hj => ?_
          simp only [List.any_eq_true, decide_eq_true_eq, not_exists, not_and] at hthere
          exact decide_eq_true (hthere j hj)
        rw [hgone, hall]

theorem Sound.strike {instruments : List Instrument} (hm : m.Sound limits) :
    (m.strike instruments).2.Sound limits :=
  ⟨hm.nodup.sublist ((pops_spec _ _).1.map _), (pops_spec _ _).1.length_le.trans hm.fits⟩

theorem keys_strike {instruments : List Instrument} :
    keys (m.strike instruments).2.desired = keys m.desired \ keys (m.strike instruments).1 :=
  (pops_spec _ _).2

end SubscriptionManager

/-! ## The contract -/

variable {cfg : Settings} {t u : ℕ} {w w' : World}

/-- The messages the feed may be sent. -/
def Proper (cfg : Settings) (m : Message) : Prop :=
  m.mode = cfg.mode.code ∧ ∃ exchange : ExchangeType, ∃ tokens, m.tokenList =
    [(exchange.code, tokens)] ∧ 1 ≤ tokens.length ∧ tokens.length ≤ 100

/-- A connection that nothing has disturbed carries `s`. -/
def Carries (w : World) (s : Finset (ℕ × String)) : Prop :=
  ∀ c, w.socket = some c → c.closed = false → c.cut = false → live c.sent = s

/-- What is wanted is subscribed. -/
def Synced (w : World) : Prop := w.manager.connected = true → Carries w (keys w.manager.desired)

structure Tidy (cfg : Settings) (w : World) : Prop where
  manager : w.manager.Sound cfg.limits
  quiet : w.manager.connected = false → ∀ c, w.socket = some c → c.sent = []
  proper : ∀ c, w.socket = some c → ∀ m ∈ c.sent, Proper cfg m
  capped : ∀ c, w.socket = some c → c.cut = false → (live c.sent).card ≤ cfg.limits.maxTokens
  synced : w.holder = none → Synced w

/-- What is subscribed after one message more. -/
def turn (action : SubscriptionAction) (named subscribed : Finset (ℕ × String)) :
    Finset (ℕ × String) :=
  match action with
  | .subscribe => subscribed ∪ named
  | .unsubscribe => subscribed \ named

theorem live_sent {sent : List Message} {action : SubscriptionAction}
    {batch : ExchangeType × List String} :
    live (sent ++ [w.message cfg action [batch]]) = turn action (batchKeys batch) (live sent) := by
  have hkeys : (w.message cfg action [batch]).keys = batchKeys batch := by
    simp [Message.keys, World.message, subscriptionMessage, batchKeys]
  rw [live_append, Message.apply, hkeys]
  cases action <;> rfl

/-- What task `t` must be sure of before a call. The feed client is task 0. -/
def Licensed (cfg : Settings) (t : ℕ) (w : World) : Call → Prop
  | .unlock => w.holder = some t ∧ Synced w
  | .enlist batch => w.holder = some t ∧ (batch.map Instrument.instrumentId).Nodup
  | .strike _ => w.holder = some t
  | .connected => t = 0 ∧ w.holder = some t
  | .disconnected => t = 0 ∧ w.holder = some t ∧ w.socket = none
  | .send action tokens => w.holder = some t ∧ w.manager.connected = true ∧
      ∃ batch, tokens = [batch] ∧ 1 ≤ batch.2.length ∧ batch.2.length ≤ 100 ∧
        ∀ c, w.socket = some c → c.closed = false → c.cut = false →
          (turn action (batchKeys batch) (live c.sent)).card ≤ cfg.limits.maxTokens
  | .connect => t = 0 ∧ w.manager.connected = false
  | .leave => t = 0
  | _ => True

/-- What the others leave: to the task that holds the lock the manager,
and the connection until it ends; to the feed client whether it is
connected. -/
structure Kept (t : ℕ) (w w' : World) : Prop where
  held : w.holder = some t → w'.holder = some t ∧ w'.manager = w.manager
  line : w.holder = some t → w.manager.connected = true → ∀ c', w'.socket = some c' →
    ∃ c, w.socket = some c ∧ c'.sent = c.sent ∧ c'.cut = c.cut ∧ (c.closed → c'.closed)
  client : t = 0 → w'.manager.connected = w.manager.connected ∧
    (w.socket = none → w'.socket = none)

theorem Kept.refl (t : ℕ) (w : World) : Kept t w w :=
  ⟨fun h => ⟨h, rfl⟩, fun _ _ c' hc => ⟨c', hc, rfl, rfl, id⟩, fun _ => ⟨rfl, id⟩⟩

theorem Kept.trans {w₁ w₂ w₃ : World} (h : Kept t w₁ w₂) (h' : Kept t w₂ w₃) : Kept t w₁ w₃ where
  held hw := by
    obtain ⟨hholder, hmanager⟩ := h.held hw
    obtain ⟨hholder', hmanager'⟩ := h'.held hholder
    exact ⟨hholder', hmanager'.trans hmanager⟩
  line hw hconnected c₃ hc₃ := by
    obtain ⟨hholder, hmanager⟩ := h.held hw
    obtain ⟨c₂, hc₂, hsent₂, hcut₂, hclosed₂⟩ := h'.line hholder (hmanager ▸ hconnected) c₃ hc₃
    obtain ⟨c₁, hc₁, hsent₁, hcut₁, hclosed₁⟩ := h.line hw hconnected c₂ hc₂
    exact ⟨c₁, hc₁, hsent₂.trans hsent₁, hcut₂.trans hcut₁, fun hc => hclosed₂ (hclosed₁ hc)⟩
  client ht := by
    obtain ⟨hconnected, hsocket⟩ := h.client ht
    obtain ⟨hconnected', hsocket'⟩ := h'.client ht
    exact ⟨hconnected'.trans hconnected, fun hw => hsocket' (hsocket hw)⟩

/-- A licensed call of another task. -/
theorem Kept.of_answers {c : Call} {a : Except FeedError c.Value} (hl : Licensed cfg t w c)
    (hs : World.Answers cfg t w c a w') (hu : u ≠ t) : Kept u w w' := by
  have hother : ∀ {p : Prop}, w.holder = some t → w.holder = some u → p := by
    intro p h h'
    exact absurd (Option.some.inj (h'.symm.trans h)) hu
  have hclient : ∀ {p : Prop}, t = 0 → u = 0 → p := fun ht hu' => absurd (hu'.trans ht.symm) hu
  have hopen : ∀ {p : Prop} {c : Connection}, w.socket = some c → w.socket = none → p := by
    intro p c h h'
    rw [h] at h'
    cases h'
  cases hs with
  | locked hfree =>
      have hnone : ∀ {p : Prop}, w.holder = some u → p := by
        intro p h
        rw [hfree] at h
        cases h
      exact ⟨hnone, hnone, fun _ => ⟨rfl, id⟩⟩
  | unlocked => exact ⟨hother hl.1, hother hl.1, fun _ => ⟨rfl, id⟩⟩
  | enlisted h =>
      refine ⟨hother hl.1, hother hl.1, fun _ => ⟨?_, id⟩⟩
      obtain ⟨-, rfl, -⟩ := SubscriptionManager.of_enlist h
      rfl
  | struck => exact ⟨hother hl, hother hl, fun _ => ⟨rfl, id⟩⟩
  | connected => exact ⟨hother hl.2, hother hl.2, hclient hl.1⟩
  | disconnected => exact ⟨hother hl.2.1, hother hl.2.1, hclient hl.1⟩
  | unconnected h => exact ⟨hother hl.1, hother hl.1, fun _ => ⟨rfl, fun _ => rfl⟩⟩
  | sent h _ => exact ⟨hother hl.1, hother hl.1, fun _ => ⟨rfl, hopen h⟩⟩
  | lost h => exact ⟨hother hl.1, hother hl.1, fun _ => ⟨rfl, hopen h⟩⟩
  | cut h _ _ => exact ⟨hother hl.1, hother hl.1, fun _ => ⟨rfl, hopen h⟩⟩
  | stop =>
      refine ⟨fun h => ⟨h, rfl⟩, fun _ _ c' hc' => ?_, fun _ => ⟨rfl, fun hn => by simp [hn]⟩⟩
      obtain ⟨c, hc, rfl⟩ := Option.map_eq_some_iff.mp hc'
      exact ⟨c, hc, rfl, rfl, fun _ => rfl⟩
  | opened =>
      refine ⟨fun h => ⟨h, rfl⟩, fun _ hconnected => ?_, hclient hl.1⟩
      rw [hl.2] at hconnected
      cases hconnected
  | left =>
      refine ⟨fun h => ⟨h, rfl⟩, fun _ _ c' hc' => ?_, hclient hl⟩
      cases hc'
  | _ => exact Kept.refl u w

theorem Tidy.answers {c : Call} {a : Except FeedError c.Value} (h : Tidy cfg w)
    (hl : Licensed cfg t w c) (hs : World.Answers cfg t w c a w') : Tidy cfg w' := by
  have hheld : ∀ {p : Prop}, w.holder = some t → w.holder = none → p := by
    intro p hholder hfree
    rw [hholder] at hfree
    cases hfree
  cases hs with
  | locked _ => exact { h with synced := fun hfree => by cases hfree }
  | unlocked => exact { h with synced := fun _ => hl.2 }
  | enlisted he =>
      have hsound := h.manager.enlist hl.2 he
      refine { h with manager := hsound, quiet := ?_, synced := hheld hl.1 }
      obtain ⟨-, rfl, -⟩ := SubscriptionManager.of_enlist he
      exact h.quiet
  | struck => exact { h with manager := h.manager.strike, synced := hheld hl }
  | connected =>
      exact { h with
        manager := ⟨h.manager.nodup, h.manager.fits⟩
        quiet := fun hc => by cases hc
        synced := hheld hl.2 }
  | disconnected =>
      exact { h with
        manager := ⟨h.manager.nodup, h.manager.fits⟩
        quiet := fun _ c hc => by rw [hl.2.2] at hc; cases hc
        synced := fun _ hc => by cases hc }
  | unconnected _ =>
      exact { h with
        quiet := fun _ c hc => by cases hc
        proper := fun c hc => by cases hc
        capped := fun c hc => by cases hc
        synced := hheld hl.1 }
  | @sent action tokens c hc hopen =>
      obtain ⟨hholder, hconnected, batch, rfl, hone, hmany, hcap⟩ := hl
      refine { h with
        quiet := fun hno => by cases hconnected.symm.trans hno
        proper := fun c' hc' => ?_
        capped := fun c' hc' => ?_
        synced := hheld hholder }
      · obtain rfl := Option.some.inj hc'
        intro m hm
        rcases List.mem_append.mp hm with hm | hm
        · exact h.proper c hc m hm
        · obtain rfl := List.mem_singleton.mp hm
          exact ⟨rfl, batch.1, batch.2, rfl, hone, hmany⟩
      · obtain rfl := Option.some.inj hc'
        intro hcut
        rw [live_sent]
        exact hcap c hc hopen hcut
  | @lost action tokens c hc =>
      obtain ⟨hholder, hconnected, -⟩ := hl
      refine { h with
        quiet := fun hno => by cases hconnected.symm.trans hno
        proper := fun c' hc' => ?_
        capped := fun c' hc' => ?_
        synced := hheld hholder }
      · obtain rfl := Option.some.inj hc'
        exact h.proper c hc
      · obtain rfl := Option.some.inj hc'
        exact h.capped c hc
  | @cut action tokens c out hc hopen hout =>
      obtain ⟨hholder, hconnected, batch, rfl, hone, hmany, -⟩ := hl
      refine { h with
        quiet := fun hno => by cases hconnected.symm.trans hno
        proper := fun c' hc' => ?_
        capped := fun c' hc' hcut => ?_
        synced := hheld hholder }
      · obtain rfl := Option.some.inj hc'
        intro m hm
        rcases List.mem_append.mp hm with hm | hm
        · exact h.proper c hc m hm
        · rcases hout with rfl | rfl
          · cases hm
          · obtain rfl := List.mem_singleton.mp hm
            exact ⟨rfl, batch.1, batch.2, rfl, hone, hmany⟩
      · obtain rfl := Option.some.inj hc'
        cases hcut
  | stop =>
      refine { h with
        quiet := fun hno c' hc' => ?_
        proper := fun c' hc' => ?_
        capped := fun c' hc' hcut => ?_
        synced := fun hfree hconnected c' hc' hopen => ?_ }
      all_goals obtain ⟨c, hc, rfl⟩ := Option.map_eq_some_iff.mp hc'
      · exact h.quiet hno c hc
      · exact h.proper c hc
      · exact h.capped c hc hcut
      · cases hopen
  | opened =>
      refine { h with
        quiet := fun _ c hc => ?_
        proper := fun c hc => ?_
        capped := fun c hc => ?_
        synced := fun _ hconnected => by cases hconnected.symm.trans hl.2 }
      all_goals obtain rfl := Option.some.inj hc
      · rfl
      · exact fun m hm => by cases hm
      · exact fun _ => Nat.zero_le _
  | left =>
      exact { h with
        quiet := fun _ c hc => by cases hc
        proper := fun c hc => by cases hc
        capped := fun c hc => by cases hc
        synced := fun _ _ c hc => by cases hc }
  | _ => exact h

theorem tidy_start : Tidy cfg .start where
  manager := ⟨List.nodup_nil, Nat.zero_le _⟩
  quiet _ c hc := by cases hc
  proper c hc := by cases hc
  capped c hc := by cases hc
  synced _ hconnected := by cases hconnected

/-- **The contract of the feed.** -/
def feedContract (cfg : Settings) : Contract (platform cfg) where
  inv := Tidy cfg
  rely := Kept
  guar := Licensed cfg
  rely_refl := Kept.refl
  rely_trans := Kept.trans
  step_inv h hl hs := h.answers hl hs
  step_rely _ hl hs hu := Kept.of_answers hl hs hu
  restart_inv _ := tidy_start

/-! ## Under the lock -/

/-- Task `t` holds the lock, and what is wanted is subscribed. -/
structure Holds (t : ℕ) (w : World) : Prop where
  holder : w.holder = some t
  synced : Synced w

/-- What a connection carries, the holder of the lock finds there again. -/
theorem Carries.of_kept {s : Finset (ℕ × String)} (h : Carries w s) (hk : Kept t w w')
    (hholder : w.holder = some t) (hconnected : w.manager.connected = true) : Carries w' s := by
  intro c' hc' hopen hcut
  obtain ⟨c, hc, hsent, hcut', hclosed⟩ := hk.line hholder hconnected c' hc'
  rw [hsent]
  refine h c hc ?_ (hcut' ▸ hcut)
  by_contra hno
  rw [hclosed (Bool.not_eq_false _ ▸ hno)] at hopen
  cases hopen

theorem Holds.of_kept (h : Holds t w) (hk : Kept t w w') : Holds t w' := by
  obtain ⟨hholder, hmanager⟩ := hk.held h.holder
  refine ⟨hholder, fun hconnected => ?_⟩
  rw [hmanager] at hconnected ⊢
  exact (h.synced hconnected).of_kept hk h.holder hconnected

/-- Task `t` holds the lock over manager `m` and sends on a connection
that carries `s`. -/
structure Sending (t : ℕ) (m : SubscriptionManager) (s : Finset (ℕ × String)) (w : World) :
    Prop where
  holder : w.holder = some t
  manager : w.manager = m
  connected : m.connected = true
  carries : Carries w s

theorem Sending.of_kept {m : SubscriptionManager} {s : Finset (ℕ × String)}
    (h : Sending t m s w) (hk : Kept t w w') : Sending t m s w' := by
  obtain ⟨hholder, hmanager⟩ := hk.held h.holder
  exact ⟨hholder, hmanager.trans h.manager, h.connected,
    h.carries.of_kept hk h.holder (h.manager ▸ h.connected)⟩

theorem Sending.holds {m : SubscriptionManager} (h : Sending t m (keys m.desired) w) :
    Holds t w := by
  refine ⟨h.holder, fun _ => ?_⟩
  rw [h.manager]
  exact h.carries

theorem turn_union {action : SubscriptionAction} {a b s : Finset (ℕ × String)} :
    turn action b (turn action a s) = turn action (a ∪ b) s := by
  cases action with
  | subscribe => exact Finset.union_assoc s a b
  | unsubscribe => exact sdiff_sdiff_left

/-- What a send may not go beyond. -/
def Within (action : SubscriptionAction) (named s bound : Finset (ℕ × String)) : Prop :=
  s ⊆ bound ∧ (action = .subscribe → named ⊆ bound)

theorem Within.turn_subset {action : SubscriptionAction} {named s bound : Finset (ℕ × String)}
    (h : Within action named s bound) : turn action named s ⊆ bound := by
  cases action with
  | subscribe => exact Finset.union_subset h.1 (h.2 rfl)
  | unsubscribe => exact Finset.sdiff_subset.trans h.1

/-- **The rule of one message.** -/
theorem safe_send {m : SubscriptionManager} {s bound : Finset (ℕ × String)}
    {action : SubscriptionAction} {batch : ExchangeType × List String} (h : Sending t m s w)
    (hlength : 1 ≤ batch.2.length ∧ batch.2.length ≤ 100)
    (hwithin : Within action (batchKeys batch) s bound) (hbound : bound.card ≤ cfg.limits.maxTokens) :
    (feedContract cfg).Safe t (await (.send action [batch]))
      (fun a w' => Sending t m (match a with
        | .ok _ => turn action (batchKeys batch) s
        | .error _ => ∅) w' ∧ ∀ e, a = .error e → ∀ s', Carries w' s') w := by
  intro w₁ _ hk
  have h₁ := h.of_kept hk
  refine ⟨⟨h₁.holder, h₁.manager ▸ h.connected, batch, rfl, hlength.1, hlength.2,
    fun c hc hopen hcut => ?_⟩, fun a w₂ hs _ => ?_⟩
  · rw [h₁.carries c hc hopen hcut]
    exact (Finset.card_le_card hwithin.turn_subset).trans hbound
  · -- A connection that has failed the send, or on which it was cut short, carries anything.
    have hfailed : ∀ {e : FeedError} {w₂ : World}, w₂.holder = w₁.holder →
        w₂.manager = w₁.manager → (∀ s', Carries w₂ s') →
        Sending t m ∅ w₂ ∧ ∀ e', (Except.error e : Except FeedError Unit) = .error e' →
          ∀ s', Carries w₂ s' :=
      fun hholder hmanager hall => ⟨⟨hholder.trans h₁.holder, hmanager.trans h₁.manager, h.connected,
        hall _⟩, fun _ _ => hall⟩
    cases hs with
    | unconnected _ => exact hfailed rfl rfl fun s' c hc => by cases hc
    | lost hc =>
        refine hfailed rfl rfl fun s' c' hc' hopen => ?_
        obtain rfl := Option.some.inj hc'
        cases hopen
    | cut hc _ _ =>
        refine hfailed rfl rfl fun s' c' hc' _ hcut => ?_
        obtain rfl := Option.some.inj hc'
        cases hcut
    | passed hidle _ => exact hidle.elim
    | @sent _ _ c hc hopen =>
        refine ⟨⟨h₁.holder, h₁.manager, h.connected, fun c' hc' hopen' hcut => ?_⟩,
          fun e he => by cases he⟩
        obtain rfl := Option.some.inj hc'
        rw [live_sent, h₁.carries c hc hopen' hcut]

/-- **A send**, by induction on its messages. -/
theorem safe_sendEach {m : SubscriptionManager} {s bound : Finset (ℕ × String)}
    {action : SubscriptionAction} {l : List (ExchangeType × List String)} (h : Sending t m s w)
    (hlength : ∀ batch ∈ l, 1 ≤ batch.2.length ∧ batch.2.length ≤ 100)
    (hwithin : Within action (allKeys l) s bound) (hbound : bound.card ≤ cfg.limits.maxTokens) :
    (feedContract cfg).Safe t (FeedSubscriptionAdapter.sendEach action l)
      (fun _ => Sending t m (turn action (allKeys l) s)) w := by
  induction l generalizing s w with
  | nil =>
      have hturn : turn action (allKeys []) s = s := by
        cases action with
        | subscribe => exact Finset.union_empty s
        | unsubscribe => exact Finset.sdiff_empty
      exact hturn.symm ▸ h
  | cons batch rest ih =>
      rw [FeedSubscriptionAdapter.allKeys_cons] at hwithin ⊢
      have hfirst : Within action (batchKeys batch) s bound :=
        ⟨hwithin.1, fun ha => Finset.union_subset_left (hwithin.2 ha)⟩
      refine (Contract.safe_bind _ _).mpr ((safe_send h (hlength batch (List.mem_cons_self ..))
        hfirst hbound).mono fun a w' ha => ?_)
      obtain ⟨hsending, hall⟩ := ha
      cases a with
      | error e =>
          exact ⟨hsending.holder, hsending.manager, hsending.connected, hall e rfl _⟩
      | ok _ =>
          rw [← turn_union]
          exact ih hsending (fun b hb => hlength b (List.mem_cons_of_mem _ hb))
            ⟨hfirst.turn_subset, fun ha => Finset.union_subset_right (hwithin.2 ha)⟩

theorem safe_adapter {m : SubscriptionManager} {s b : Finset (ℕ × String)}
    {action : SubscriptionAction} {instruments : List Instrument} (h : Sending t m s w)
    (hwithin : Within action (keys instruments) s b) (hbound : b.card ≤ cfg.limits.maxTokens) :
    (feedContract cfg).Safe t (FeedSubscriptionAdapter.send action instruments)
      (fun _ => Sending t m (turn action (keys instruments) s)) w := by
  rw [← FeedSubscriptionAdapter.allKeys_batches] at hwithin ⊢
  exact safe_sendEach h (fun _ => FeedSubscriptionAdapter.length_of_mem_batches) hwithin hbound

theorem SubscriptionManager.Sound.card_keys_le {m : SubscriptionManager}
    (h : m.Sound cfg.limits) : (keys m.desired).card ≤ cfg.limits.maxTokens :=
  (MarketFeed.card_keys_le _).trans h.fits

/-- **The rule of the lock.** What the task knows before (`F`) and after
(`Q`) must not be about the lock, and hold whatever the others do. -/
theorem safe_withLock {p : Program Unit} {F : World → Prop} {Q : Except FeedError Unit → World → Prop}
    (hF : F w) (hkept : ∀ {w w'}, Kept t w w' → F w → F w')
    (hlock : ∀ {w}, F w → F { w with holder := some t })
    (hunlock : ∀ {r w}, Q r w → Q r { w with holder := none })
    (hkeptQ : ∀ {r w w'}, Kept t w w' → Q r w → Q r w')
    (hcancelled : ∀ {w}, F w → Q (.error .cancelled) w)
    (h : ∀ w', Holds t w' → F w' → (feedContract cfg).Safe t p (fun r w'' => Holds t w'' ∧ Q r w'') w') :
    (feedContract cfg).Safe t (SubscriptionManager.withLock p) Q w := by
  refine (Contract.safe_bind _ _).mpr fun w₁ htidy hk₁ => ⟨trivial, fun a w₂ hs _ => ?_⟩
  cases hs with
  | passed hidle _ => exact hidle.elim
  | lockCancelled => exact hcancelled (hkept hk₁ hF)
  | locked hfree =>
      have hholds : Holds t { w₁ with holder := some t } := ⟨rfl, htidy.synced hfree⟩
      refine (Contract.safe_bind _ _).mpr ((Contract.safe_attempt _).mpr
        ((h _ hholds (hlock (hkept hk₁ hF))).mono fun r w₃ h₃ => ?_))
      refine (Contract.safe_bind _ _).mpr fun w₄ _ hk => ?_
      have h₄ := h₃.1.of_kept hk
      refine ⟨⟨h₄.holder, h₄.synced⟩, fun a w₅ hs _ => ?_⟩
      cases hs with
      | passed hidle _ => exact hidle.elim
      | unlocked => cases r <;> exact hunlock (hkeptQ hk h₃.2)

/-! ## The callers -/

theorem safe_subscribe (instruments : List Instrument) :
    (feedContract cfg).Safe t (SubscriptionManager.subscribe instruments) (fun _ _ => True) w := by
  refine safe_withLock (F := fun _ => True) trivial (fun _ _ => trivial) (fun _ => trivial)
    (fun _ => trivial) (fun _ _ => trivial) (fun _ => trivial) fun w₁ h₁ _ => ?_
  refine (Contract.safe_bind _ _).mpr fun w₂ _ hk => ?_
  have h₂ := h₁.of_kept hk
  refine ⟨⟨h₂.holder, Table.nodup_dict⟩, fun a w₃ hs htidy => ?_⟩
  cases hs with
  | passed hidle _ => exact hidle.elim
  | refused _ => exact ⟨h₂, trivial⟩
  | @enlisted _ new m henlist =>
      obtain ⟨-, hm, -⟩ := SubscriptionManager.of_enlist henlist
      have hconnected : m.connected = w₂.manager.connected := by rw [hm]
      rw [Contract.safe_done]
      dsimp only
      split_ifs with hsend
      · obtain ⟨-, hcon⟩ := hsend
        have hsending : Sending t m (keys w₂.manager.desired) { w₂ with manager := m } :=
          ⟨h₂.holder, rfl, hcon, h₂.synced (hconnected ▸ hcon)⟩
        have hkeys := SubscriptionManager.keys_enlist henlist
        refine (safe_adapter hsending (b := keys m.desired) ?_
          htidy.manager.card_keys_le).mono fun r w' h' => ⟨Sending.holds (m := m) ?_, trivial⟩
        · rw [hkeys]
          exact ⟨Finset.subset_union_left, fun _ => Finset.subset_union_right⟩
        · rw [hkeys]
          exact h'
      · refine ⟨⟨h₂.holder, fun hcon => ?_⟩, trivial⟩
        have hnew : new = [] := by
          by_contra hne
          exact hsend ⟨hne, hcon⟩
        subst hm hnew
        change Carries w₂ (keys (w₂.manager.desired ++ []))
        rw [List.append_nil]
        exact h₂.synced hcon

theorem safe_unsubscribe (instruments : List Instrument) :
    (feedContract cfg).Safe t (SubscriptionManager.unsubscribe instruments) (fun _ _ => True) w := by
  refine safe_withLock (F := fun _ => True) trivial (fun _ _ => trivial) (fun _ => trivial)
    (fun _ => trivial) (fun _ _ => trivial) (fun _ => trivial) fun w₁ h₁ _ => ?_
  refine (Contract.safe_bind _ _).mpr fun w₂ htidy hk => ?_
  have h₂ := h₁.of_kept hk
  refine ⟨h₂.holder, fun a w₃ hs _ => ?_⟩
  cases hs with
  | passed hidle _ => exact hidle.elim
  | struck =>
      have hkeys : keys (w₂.manager.strike instruments).2.desired = _ :=
        SubscriptionManager.keys_strike
      rw [Contract.safe_done]
      dsimp only
      split_ifs with hsend
      · obtain ⟨-, hcon⟩ := hsend
        have hsending : Sending t (w₂.manager.strike instruments).2 (keys w₂.manager.desired)
            { w₂ with manager := (w₂.manager.strike instruments).2 } :=
          ⟨h₂.holder, rfl, hcon, h₂.synced hcon⟩
        refine (safe_adapter hsending (b := keys w₂.manager.desired)
          ⟨Finset.Subset.refl _, fun ha => by cases ha⟩ htidy.manager.card_keys_le).mono
          fun r w' h' => ⟨Sending.holds (m := (w₂.manager.strike instruments).2) ?_, trivial⟩
        rw [hkeys]
        exact h'
      · refine ⟨⟨h₂.holder, fun hcon => ?_⟩, trivial⟩
        have hgone : (w₂.manager.strike instruments).1 = [] := by
          by_contra hne
          exact hsend ⟨hne, hcon⟩
        rw [hgone, keys_nil, Finset.sdiff_empty] at hkeys
        change Carries w₂ (keys (w₂.manager.strike instruments).2.desired)
        rw [hkeys]
        exact h₂.synced hcon

/-- A call that leaves the world alone and needs no licence. -/
def Passing : Call → Prop
  | .auth _ | .others | .read | .heartbeat | .close | .stopping | .fraction | .sleep _ => True
  | _ => False

theorem safe_passing {c : Call} (hc : Passing c) {F : World → Prop} (hF : F w)
    (hkept : ∀ {w w'}, Kept t w w' → F w → F w') :
    (feedContract cfg).Safe t (await c) (fun _ => F) w := by
  refine fun w₁ _ hk => ⟨?_, fun a w₂ hs _ => ?_⟩
  · cases c <;> first | exact hc.elim | trivial
  · cases hs with
    | passed _ _ => exact hkept hk hF
    | stopping => exact hkept hk hF
    | drawn _ _ => exact hkept hk hF
    | slept => exact hkept hk hF
    | woken => exact hkept hk hF
    | _ => exact hc.elim

theorem safe_close : (feedContract cfg).Safe t (await .close) (fun _ _ => True) w :=
  safe_passing (c := .close) trivial trivial fun _ _ => trivial

theorem safe_stop : (feedContract cfg).Safe t MarketFeedClient.stop (fun _ _ => True) w := by
  refine (Contract.safe_bind _ _).mpr fun w₁ _ _ => ⟨trivial, fun a w₂ _ _ => ?_⟩
  cases a with
  | error e => trivial
  | ok _ => exact safe_close

/-- Every task of the rest of the process keeps to the contract. -/
theorem safe_caller (caller : Caller) (t : ℕ) (w : World) :
    (feedContract cfg).Safe t caller.run (fun _ _ => True) w := by
  cases caller with
  | subscribe instruments => exact safe_subscribe instruments
  | unsubscribe instruments => exact safe_unsubscribe instruments
  | stop => exact safe_stop

/-! ## The feed client -/

/-- The client is between two connections. -/
def Off (w : World) : Prop := w.socket = none

/-- The listeners have been told. -/
structure Told (w : World) : Prop where
  off : Off w
  connected : w.manager.connected = false

theorem Off.of_kept (hk : Kept 0 w w') (h : Off w) : Off w' := (hk.client rfl).2 h

theorem Told.of_kept (hk : Kept 0 w w') (h : Told w) : Told w' :=
  ⟨h.off.of_kept hk, (hk.client rfl).1.trans h.connected⟩

theorem safe_onConnected (h : w.manager.connected = false) :
    (feedContract cfg).Safe 0 SubscriptionManager.onConnected (fun _ _ => True) w := by
  refine safe_withLock (F := fun w => w.manager.connected = false) h
    (fun hk h => (hk.client rfl).1.trans h) (fun h => h) (fun _ => trivial) (fun _ _ => trivial)
    (fun _ => trivial) fun w₁ h₁ hF => ?_
  refine (Contract.safe_bind _ _).mpr fun w₂ htidy hk => ?_
  have h₂ := h₁.of_kept hk
  refine ⟨⟨rfl, h₂.holder⟩, fun a w₃ hs htidy' => ?_⟩
  cases hs with
  | passed hidle _ => exact hidle.elim
  | connected =>
      -- Nothing has been sent on the new connection yet.
      have hsending : Sending 0 { w₂.manager with connected := true } ∅
          { w₂ with manager := { w₂.manager with connected := true } } := by
        refine ⟨h₂.holder, rfl, rfl, fun c hc _ _ => ?_⟩
        rw [htidy.quiet ((hk.client rfl).1.trans hF) c hc]
        rfl
      rw [Contract.safe_done]
      dsimp only
      split_ifs with hsend
      · refine (safe_adapter hsending (b := keys w₂.manager.desired) ⟨Finset.empty_subset _,
          fun _ => Finset.Subset.refl _⟩ htidy.manager.card_keys_le).mono
          fun r w' h' => ⟨Sending.holds (m := { w₂.manager with connected := true }) ?_, trivial⟩
        rw [turn, Finset.empty_union] at h'
        exact h'
      · have hempty : keys w₂.manager.desired = ∅ := by rw [not_not.mp hsend, keys_nil]
        exact ⟨Sending.holds (hempty.symm ▸ hsending), trivial⟩

theorem safe_onDisconnected (h : Off w) :
    (feedContract cfg).Safe 0 SubscriptionManager.onDisconnected
      (fun r w' => Off w' ∧ (r = .ok () → Told w')) w := by
  refine safe_withLock (F := Off) h Off.of_kept (fun h => h) ?_ ?_ ?_ fun w₁ h₁ hF => ?_
  · rintro r w ⟨hoff, htold⟩
    exact ⟨hoff, fun hr => ⟨hoff, (htold hr).connected⟩⟩
  · rintro r w w' hk ⟨hoff, htold⟩
    exact ⟨hoff.of_kept hk, fun hr => (htold hr).of_kept hk⟩
  · exact fun hoff => ⟨hoff, fun hr => by cases hr⟩
  · intro w₂ _ hk
    have h₂ := h₁.of_kept hk
    have hoff := hF.of_kept hk
    refine ⟨⟨rfl, h₂.holder, hoff⟩, fun a w₃ hs _ => ?_⟩
    cases hs with
    | passed hidle _ => exact hidle.elim
    | disconnected =>
        exact ⟨⟨h₂.holder, fun hcon => by cases hcon⟩, hoff, fun _ => ⟨hoff, rfl⟩⟩

theorem safe_notifyDisconnected (h : Off w) :
    (feedContract cfg).Safe 0 MarketFeedClient.notifyDisconnected
      (fun r w' => Off w' ∧ (r = .ok () → Told w')) w := by
  refine (Contract.safe_bind _ _).mpr ((safe_onDisconnected h).mono fun r w₁ h₁ => ?_)
  cases r with
  | error e => exact ⟨h₁.1, fun hr => by cases hr⟩
  | ok _ =>
      exact (safe_passing (c := .others) trivial (h₁.2 rfl) Told.of_kept).mono
        fun _ _ htold => ⟨htold.off, fun _ => htold⟩

/-- Whatever a connection goes through, it ends with the socket reset. -/
theorem safe_runConnected (h : w.manager.connected = false) :
    (feedContract cfg).Safe 0 MarketFeedClient.runConnected (fun _ => Off) w := by
  have hserved : (feedContract cfg).Safe 0 (do
      SubscriptionManager.onConnected
      await .others
      await .read : Program Unit) (fun _ _ => True) w := by
    refine (Contract.safe_bind _ _).mpr ((safe_onConnected h).mono fun r w₁ _ => ?_)
    cases r with
    | error e => trivial
    | ok _ =>
        refine (Contract.safe_bind _ _).mpr ((safe_passing (c := .others) trivial
          (F := fun _ => True) trivial fun _ _ => trivial).mono fun r w₂ _ => ?_)
        cases r with
        | error e => trivial
        | ok _ => exact safe_passing (c := .read) trivial trivial fun _ _ => trivial
  refine (Contract.safe_bind _ _).mpr ((Contract.safe_attempt _).mpr
    (hserved.mono fun r w₁ _ => ?_))
  refine (Contract.safe_bind _ _).mpr fun w₂ _ _ => ⟨rfl, fun a w₃ hs _ => ?_⟩
  cases hs with
  | passed hidle _ => exact hidle.elim
  | left =>
      have hoff : Off { w₂ with socket := none } := rfl
      refine (Contract.safe_bind _ _).mpr ((safe_passing (c := .heartbeat) trivial hoff
        Off.of_kept).mono fun r' w₄ h₄ => ?_)
      cases r' with
      | error e => exact h₄
      | ok _ =>
          dsimp only
          split
          · exact h₄
          · exact h₄

theorem safe_serveOneConnection {refreshAuth : Bool} (h : Told w) :
    (feedContract cfg).Safe 0 (MarketFeedClient.serveOneConnection refreshAuth) (fun _ => Off) w := by
  refine (Contract.safe_bind _ _).mpr ((safe_passing (c := .auth refreshAuth) trivial h
    Told.of_kept).mono fun r w₁ h₁ => ?_)
  cases r with
  | error e => exact h₁.off
  | ok _ =>
      refine (Contract.safe_bind _ _).mpr fun w₂ _ hk => ?_
      have h₂ := h₁.of_kept hk
      refine ⟨⟨rfl, h₂.connected⟩, fun a w₃ hs _ => ?_⟩
      cases hs with
      | passed _ hopen =>
          obtain ⟨e, rfl⟩ := hopen rfl
          exact h₂.off
      | opened =>
          refine (Contract.safe_bind _ _).mpr ((Contract.safe_attempt _).mpr
            ((safe_runConnected (w := { w₂ with socket := some .fresh }) h₂.connected).mono
              fun r w₄ h₄ => ?_))
          refine (Contract.safe_bind _ _).mpr ((safe_passing (c := .close) trivial h₄
            Off.of_kept).mono fun r' w₅ h₅ => ?_)
          cases r' with
          | error e => exact h₅
          | ok _ => exact h₅

theorem safe_down {attempt : ℕ} {again : Program Unit} (h : Off w)
    (hagain : ∀ w', Told w' → (feedContract cfg).Safe 0 again (fun _ _ => True) w') :
    (feedContract cfg).Safe 0 (MarketFeedClient.down cfg attempt again) (fun _ _ => True) w := by
  refine (Contract.safe_bind _ _).mpr ((safe_passing (c := .stopping) trivial h
    Off.of_kept).mono fun r w₁ h₁ => ?_)
  cases r with
  | error e => trivial
  | ok stopping =>
      cases stopping with
      | true => trivial
      | false =>
          refine (Contract.safe_bind _ _).mpr ((safe_notifyDisconnected h₁).mono fun r w₂ h₂ => ?_)
          cases r with
          | error e => trivial
          | ok _ =>
              refine (Contract.safe_bind _ _).mpr ((safe_passing (c := .fraction) trivial (h₂.2 rfl)
                Told.of_kept).mono fun r w₃ h₃ => ?_)
              cases r with
              | error e => trivial
              | ok fraction =>
                  refine (Contract.safe_bind _ _).mpr ((safe_passing (c := .sleep _) trivial h₃
                    Told.of_kept).mono fun r w₄ h₄ => ?_)
                  cases r with
                  | error e => trivial
                  | ok _ => exact hagain w₄ h₄

/-- **The feed client keeps to the contract**, by induction on its
connections: it opens one only after the listeners have been told that the
last one is gone. -/
theorem safe_run {rounds attempt : ℕ} {refreshAuth : Bool} (h : Told w) :
    (feedContract cfg).Safe 0 (MarketFeedClient.run cfg rounds attempt refreshAuth)
      (fun _ _ => True) w := by
  induction rounds generalizing attempt refreshAuth w with
  | zero => trivial
  | succ rounds ih =>
      refine (Contract.safe_bind _ _).mpr ((safe_passing (c := .stopping) trivial h
        Told.of_kept).mono fun r w₁ h₁ => ?_)
      cases r with
      | error e => trivial
      | ok stopping =>
          cases stopping with
          | true => trivial
          | false =>
              refine (Contract.safe_bind _ _).mpr ((Contract.safe_attempt _).mpr
                ((safe_serveOneConnection h₁).mono fun r w₂ h₂ => ?_))
              match r with
              | .ok _ => exact safe_down h₂ fun _ hw' => ih hw'
              | .error .tls =>
                  refine (Contract.safe_bind _ _).mpr ((safe_notifyDisconnected h₂).mono
                    fun r w₃ _ => ?_)
                  cases r <;> trivial
              | .error (.invalidStatus code) => exact safe_down h₂ fun _ hw' => ih hw'
              | .error .closed => exact safe_down h₂ fun _ hw' => ih hw'
              | .error .transport => exact safe_down h₂ fun _ hw' => ih hw'
              | .error (.limitExceeded ..) => trivial
              | .error .notConnected => trivial
              | .error .cancelled => trivial
              | .error .other => trivial

/-! ## Every run -/

/-- A new process with its feed client, which will open up to `rounds`
connections. -/
def feedAlone (cfg : Settings) (rounds : ℕ) : Pool calls FeedError Unit World :=
  (Pool.idle .start 0).put 0 (MarketFeedClient.run cfg rounds 0 false) .start 1

theorem sound_feedAlone {rounds : ℕ} :
    (feedAlone cfg rounds).Sound (feedContract cfg) Pool.nothing := by
  refine ⟨tidy_start, fun t p ht => ?_⟩
  by_cases h0 : t = 0
  · subst h0
    obtain rfl := Option.some.inj ((Pool.put_self ..).symm.trans ht)
    exact safe_run ⟨rfl, rfl⟩
  · rw [feedAlone, Pool.put_of_ne h0] at ht
    cases ht

/-- **What is wanted is what is subscribed.** However subscribers,
reconnects, failed sends and cancellations interleave: the manager wants
every instrument once and no more than the cap, which is at most a
thousand; every message on the wire is in the adapter's mode and names
between one and a hundred tokens of one exchange; a connection on which no
send was cut short never carries more tokens than the cap; and whenever the
lock is free, on a connection the manager has been told of, exactly the
instruments that are wanted are subscribed, unless a send on it has failed
or was cut short. -/
theorem wanted_is_subscribed {rounds : ℕ} {s : Pool calls FeedError Unit World}
    (hr : Pool.Reachable (platform cfg) (fun p => ∃ caller : Caller, p = caller.run)
      (feedAlone cfg rounds) s) :
    ((s.world.manager.desired.map Instrument.instrumentId).Nodup ∧
      s.world.manager.desired.length ≤ cfg.limits.maxTokens ∧ cfg.limits.maxTokens ≤ 1000) ∧
    (∀ c, s.world.socket = some c →
      (∀ m ∈ c.sent, m.mode = cfg.mode.code ∧ ∃ exchange : ExchangeType, ∃ tokens,
        m.tokenList = [(exchange.code, tokens)] ∧ 1 ≤ tokens.length ∧ tokens.length ≤ 100) ∧
      (c.cut = false → (live c.sent).card ≤ cfg.limits.maxTokens) ∧
      (s.world.holder = none → s.world.manager.connected = true → c.closed = false →
        c.cut = false → live c.sent = (s.world.manager.desired.map fun i =>
          ((ExchangeType.ofExchange i.exchange).code, i.token)).toFinset)) := by
  have hsound : s.Sound (feedContract cfg) Pool.nothing :=
    Pool.Reachable.sound (fun _ _ => trivial)
      (fun p hp t w _ => by obtain ⟨caller, rfl⟩ := hp; exact safe_caller caller t w)
      sound_feedAlone hr
  have htidy : Tidy cfg s.world := hsound.inv
  refine ⟨⟨htidy.manager.nodup, htidy.manager.fits, cfg.limits.le_ceiling⟩, fun c hc =>
    ⟨htidy.proper c hc, htidy.capped c hc, fun hfree hconnected => htidy.synced hfree hconnected c hc⟩⟩

/-! ## A reconnect -/

namespace OneReconnect

theorem tick_pos : Money.zero < ⟨1⟩ := by decide

def infy : Instrument where
  exchange := .nse
  token := "1594"
  tradingsymbol := "INFY-EQ"
  name := "INFY"
  lotSize := 1
  tickSize := ⟨1⟩
  named := by decide
  lot_pos := by decide
  tick_pos := tick_pos

def tcs : Instrument where
  exchange := .bse
  token := "532540"
  tradingsymbol := "TCS"
  name := "TCS"
  lotSize := 1
  tickSize := ⟨1⟩
  named := by decide
  lot_pos := by decide
  tick_pos := tick_pos

def feed : Settings := ⟨.defaultCap, .quote, reconnectPolicy⟩

/-- Everything goes well, but the connections end. -/
def respond : Responder calls FeedError World := fun t w c =>
  match c with
  | .lock => if w.holder = none then some (.ok (), { w with holder := some t }) else none
  | .unlock => some (.ok (), { w with holder := none })
  | .enlist batch =>
      match w.manager.enlist feed.limits batch with
      | .ok (new, m) => some (.ok (new, m.connected), { w with manager := m })
      | .error e => some (.error e, w)
  | .strike instruments =>
      some (.ok ((w.manager.strike instruments).1, w.manager.connected),
        { w with manager := (w.manager.strike instruments).2 })
  | .connected =>
      some (.ok w.manager.desired, { w with manager := { w.manager with connected := true } })
  | .disconnected => some (.ok (), { w with manager := { w.manager with connected := false } })
  | .send action tokens =>
      match w.socket with
      | none => some (.error .notConnected, w.sending none)
      | some c =>
          if c.closed then some (.error .closed, w.sending (some { c with closed := true }))
          else some (.ok (), w.sending (some
            { c with sent := c.sent ++ [w.message feed action tokens] }))
  | .stopping => some (.ok w.isStopping, w)
  | .stop => some (.ok (), { w with
      isStopping := true
      socket := w.socket.map fun c => { c with closed := true } })
  | .auth _ | .others | .heartbeat | .close => some (.ok (), w)
  | .connect => some (.ok (), { w with socket := some .fresh })
  | .read => some (.error .closed, w)
  | .leave => some (.ok (), { w with socket := none })
  | .fraction => some (.ok 0, w)
  | .sleep _ => some (.ok (), w)

theorem respond_within : respond.Within (platform feed) := by
  intro t w c a w' h
  cases c with
  | lock =>
      simp only [respond] at h
      split_ifs at h with hfree
      obtain ⟨rfl, rfl⟩ := Prod.mk.inj (Option.some.inj h)
      exact .locked hfree
  | enlist batch =>
      simp only [respond] at h
      split at h
      · rename_i henlist
        obtain ⟨rfl, rfl⟩ := Prod.mk.inj (Option.some.inj h)
        exact .enlisted henlist
      · rename_i henlist
        obtain ⟨rfl, rfl⟩ := Prod.mk.inj (Option.some.inj h)
        exact .refused henlist
  | send action tokens =>
      simp only [respond] at h
      split at h
      · rename_i hsocket
        obtain ⟨rfl, rfl⟩ := Prod.mk.inj (Option.some.inj h)
        exact .unconnected hsocket
      · rename_i hsocket
        split_ifs at h with hclosed
        · obtain ⟨rfl, rfl⟩ := Prod.mk.inj (Option.some.inj h)
          exact .lost hsocket
        · obtain ⟨rfl, rfl⟩ := Prod.mk.inj (Option.some.inj h)
          exact .sent hsocket (by simpa using hclosed)
  | _ =>
      obtain ⟨rfl, rfl⟩ := Prod.mk.inj (Option.some.inj h)
      first
        | exact .unlocked
        | exact .struck
        | exact .connected
        | exact .disconnected
        | exact .stopping
        | exact .stop
        | exact .opened
        | exact .left
        | exact .drawn le_rfl one_pos
        | exact .slept
        | exact .passed trivial (fun hc => by cases hc)

/-- Two instruments are wanted before the feed is up, which sends them on
its first connection; one is given up; the second connection has the
other. -/
def schedule : List (Move Caller) :=
  [.start (.subscribe [infy, tcs]), .run 1 3, .run 0 8, .start (.unsubscribe [tcs]), .run 2 4,
    .run 0 19]

def after : Pool calls FeedError Unit World :=
  (feedAlone feed 2).play respond (platform feed).restart Caller.run schedule

theorem after_reachable : Pool.Reachable (platform feed)
    (fun p => ∃ caller : Caller, p = caller.run) (feedAlone feed 2) after :=
  Pool.Reachable.play respond_within (fun caller => ⟨caller, rfl⟩) .refl schedule

end OneReconnect

open OneReconnect in
theorem wanted_is_subscribed_sample :
    after.world.holder = none ∧ after.world.issued = 4 ∧
      after.world.manager.desired = [infy] ∧
      ∀ c, after.world.socket = some c → live c.sent = {(1, "1594")} := by
  have hsocket : after.world.socket = some ⟨[⟨"0000000004", 1, 2, [(1, ["1594"])]⟩], false, false⟩ := by
    decide
  refine ⟨by decide, by decide, by decide, fun c hc => ?_⟩
  have hcarried := ((wanted_is_subscribed after_reachable).2 c hc).2.2 (by decide) (by decide)
  obtain rfl := Option.some.inj (hsocket.symm.trans hc)
  exact (hcarried rfl rfl).trans (by decide)

end MarketFeed

end Emporos
