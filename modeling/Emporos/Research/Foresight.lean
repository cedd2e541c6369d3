import Emporos.Research.Accounts
/-!
# A swing simulation has no look-ahead

What a session fills and decides reads the data up to its day, and which
names there are. So two runs on datasets that agree up to a day, and have the
same names, are the same up to it; they differ at most in the sale of what is
left, where the day is the last session of one of them.
-/

namespace Emporos

namespace Swing

open SwingDataset

section Congruence

variable {data data' : SwingDataset} {config : SwingConfig} {costs : SwingCostModel}
  {membership : Membership} {d day : Day} {i : ℕ} {s : State}

theorem value_congr (h : AgreeUpTo d data data') (hnames : SameNames data data') (hday : day ≤ d)
    (p : Position) (atOpen : Bool) : value data p day atOpen = value data' p day atOpen := by
  unfold value
  rcases find_congr h hnames p.instrumentId with ⟨e, hs, hs'⟩ | ⟨s, s', hs, hs', hbars⟩
  · rw [hs, hs']
  · rw [hs, hs', ok_bind, ok_bind, SwingSeries.lastOnOrBefore_congr hbars hday]

theorem equity_congr (h : AgreeUpTo d data data') (hnames : SameNames data data') (hday : day ≤ d)
    (s : State) (atOpen : Bool) : s.equity data day atOpen = s.equity data' day atOpen := by
  unfold State.equity
  simp only [value_congr h hnames hday]

theorem fillExits_congr (h : AgreeUpTo d data data') (hnames : SameNames data data') (hday : day ≤ d) :
    fillExits data config costs day s = fillExits data' config costs day s := by
  have hexit : fillExit data config costs day = fillExit data' config costs day := by
    funext s name
    unfold fillExit
    rw [barOn_congr h hnames hday]
  funext exits
  rw [fillExits, fillExits, hexit]

theorem buy_congr (h : AgreeUpTo d data data') (hnames : SameNames data data') (hday : day ≤ d)
    (intent : Intent) (rawFill multiplier : Decimal) :
    buy data config costs s intent i day rawFill multiplier =
      buy data' config costs s intent i day rawFill multiplier := by
  unfold buy
  rw [equity_congr h hnames hday]

theorem fillEntries_congr (h : AgreeUpTo d data data') (hnames : SameNames data data') (hday : day ≤ d)
    (intents : List Intent) : fillEntries data config costs i day s intents =
      fillEntries data' config costs i day s intents := by
  induction intents generalizing s with
  | nil => rfl
  | cons intent intents ih =>
      rw [fillEntries, fillEntries, ih, barOn_congr h hnames hday]
      split
      · rfl
      · split
        · rfl
        · refine congrArg _ (funext fun bar => ?_)
          cases bar with
          | none => exact ih
          | some bar =>
              refine (congrArg (· >>= _) (buy_congr h hnames hday intent _ _)).trans ?_
              exact congrArg _ (funext fun s' => ih)

theorem tradable_congr (h : AgreeUpTo d data data') (hnames : SameNames data data') (hday : day ≤ d) :
    tradable data membership day = tradable data' membership day := by
  have hmem (x : SwingDataset) (name : String) : name ∈ tradable x membership day ↔
      (∃ bar, x.barOn name day = .ok (some bar)) ∧ membership name day := by
    simp only [tradable, List.mem_toFinset, List.mem_map, List.mem_filter, decide_eq_true_iff,
      Option.isSome_iff_exists]
    constructor
    · rintro ⟨s, ⟨hs, ⟨bar, hbar⟩, hmember⟩, rfl⟩
      refine ⟨⟨bar, ?_⟩, hmember⟩
      rw [SwingDataset.barOn, find_eq_ok.mpr (Table.lookup_of_mem x.nodup hs), ok_bind, hbar]
      rfl
    · rintro ⟨⟨bar, hbar⟩, hmember⟩
      obtain ⟨s, hs, hbar⟩ := exists_of_bind hbar
      have hlookup := find_eq_ok.mp hs
      have hname : s.instrumentId = name := Table.key_of_lookup hlookup
      refine ⟨s, ⟨Table.mem_of_lookup hlookup, ⟨bar, Except.ok.inj hbar⟩, ?_⟩, hname⟩
      rwa [hname]
  ext name
  rw [hmem, hmem, barOn_congr h hnames hday]

theorem decide_congr {σ : Type} {strategy : SwingStrategy σ} (h : AgreeUpTo d data data')
    (hnames : SameNames data data') (hday : day ≤ d) (equity : Decimal) (state : σ) :
    Swing.decide data config membership strategy s i day equity state =
      Swing.decide data' config membership strategy s i day equity state := by
  unfold Swing.decide
  simp only [tradable_congr h hnames hday, asOf_congr h hnames hday]
  rw [hnames]

end Congruence

/-! ## Two runs -/

/-- The sessions up to a day. -/
def upTo (d : Day) (sessions : List Session) : List Session := sessions.filter fun x => x.day ≤ d

/-- **The runs are the same up to a day**, apart from the final liquidation:
the books behind the fills, every session but the last of these, and that
too where both calendars go on. -/
structure SameUpTo (d : Day) (data data' : SwingDataset) (r r' : SwingRun) : Prop where
  filled : (upTo d r.sessions).map (fun x => (x.day, x.filled)) =
    (upTo d r'.sessions).map (fun x => (x.day, x.filled))
  earlier : (upTo d r.sessions).dropLast = (upTo d r'.sessions).dropLast
  whole : (∃ t ∈ data.calendar, d < t) → (∃ t ∈ data'.calendar, d < t) →
    upTo d r.sessions = upTo d r'.sessions

section Runs

variable {data data' : SwingDataset} {config : SwingConfig} {costs : SwingCostModel}
  {membership : Membership} {σ : Type} {strategy : SwingStrategy σ} {growth : Decimal}
  {d : Day} {first i : ℕ} {s : State} {orders : Orders σ}
  {common later later' : List Day} {sessions sessions' : List Session}

/-- Sessions of later days are not up to the day. -/
theorem upTo_eq_nil {days : List Day} (hdays : sessions.map (·.day) = days)
    (hlater : ∀ t ∈ days, d < t) : upTo d sessions = [] := by
  refine List.filter_eq_nil_iff.mpr fun x hx => ?_
  have := hlater x.day (hdays ▸ List.mem_map_of_mem hx)
  simpa using this

theorem dropLast_cons_congr {α : Type} {x : α} {l l' : List α} (hlength : l.length = l'.length)
    (h : l.dropLast = l'.dropLast) : (x :: l).dropLast = (x :: l').dropLast := by
  cases l with
  | nil => rw [List.length_eq_zero_iff.mp hlength.symm]
  | cons y l =>
      cases l' with
      | nil => cases hlength
      | cons z l' => rw [List.dropLast_cons_cons, List.dropLast_cons_cons, h]

/-- Sessions that start from the same book and orders are the same up to the
day. -/
theorem same_sessionsFrom (h : AgreeUpTo d data data') (hnames : SameNames data data')
    (hcommon : ∀ t ∈ common, t ≤ d) (hlater : ∀ t ∈ later, d < t) (hlater' : ∀ t ∈ later', d < t)
    (hs : sessionsFrom data config costs membership strategy growth first i (common ++ later) s orders =
      .ok sessions)
    (hs' : sessionsFrom data' config costs membership strategy growth first i (common ++ later') s
      orders = .ok sessions') :
    (upTo d sessions).map (fun x => (x.day, x.filled)) =
        (upTo d sessions').map (fun x => (x.day, x.filled)) ∧
      (upTo d sessions).dropLast = (upTo d sessions').dropLast ∧
      (later ≠ [] → later' ≠ [] → upTo d sessions = upTo d sessions') := by
  induction common generalizing i s orders sessions sessions' with
  | nil =>
      rw [upTo_eq_nil (days_sessionsFrom hs) hlater, upTo_eq_nil (days_sessionsFrom hs') hlater']
      exact ⟨rfl, rfl, fun _ _ => rfl⟩
  | cons day common ih =>
      have hday : day ≤ d := hcommon day List.mem_cons_self
      obtain ⟨exited, filled, hexited, hfilled, hs⟩ := session_cases hs
      obtain ⟨exited', filled', hexited', hfilled', hs'⟩ := session_cases hs'
      obtain rfl : exited = exited' := by
        rw [← fillExits_congr h hnames hday, hexited] at hexited'
        exact Except.ok.inj hexited'
      obtain rfl : filled = filled' := by
        rw [← fillEntries_congr h hnames hday, hfilled] at hfilled'
        exact Except.ok.inj hfilled'
      have hhead (x : Session) (rest : List Session) (hx : x.day = day) :
          upTo d (x :: rest) = x :: upTo d rest := by
        rw [upTo, List.filter_cons, if_pos (decide_eq_true (hx ▸ hday))]
        rfl
      rcases hs with ⟨hnil, closed, equity, -, -, rfl⟩ |
        ⟨hgoes, equity, orders₁, rest, hequity, horders, hrest, rfl⟩
      · -- the first run ends on the day
        obtain ⟨rfl, rfl⟩ := List.append_eq_nil_iff.mp hnil
        have hsingle : ∃ x, upTo d sessions' = [x] ∧ x.day = day ∧ x.filled = filled := by
          rcases hs' with ⟨-, closed', equity', -, -, rfl⟩ |
            ⟨-, equity', orders₂, rest', -, -, hrest', rfl⟩
          · exact ⟨_, hhead _ _ rfl, rfl, rfl⟩
          · refine ⟨⟨day, filled, filled, equity'⟩, ?_, rfl, rfl⟩
            rw [hhead _ _ rfl, upTo_eq_nil (days_sessionsFrom hrest') hlater']
        obtain ⟨x, hx, hxday, hxfilled⟩ := hsingle
        rw [hx, hhead ⟨day, filled, closed, equity⟩ [] rfl]
        refine ⟨?_, rfl, fun hne => absurd rfl hne⟩
        rw [upTo, List.filter_nil, List.map_singleton, List.map_singleton, hxday, hxfilled]
      · rcases hs' with ⟨hnil', closed', equity', -, -, rfl⟩ |
          ⟨-, equity', orders₂, rest', hequity', horders', hrest', rfl⟩
        · -- the second run ends on the day
          obtain ⟨rfl, rfl⟩ := List.append_eq_nil_iff.mp hnil'
          rw [hhead _ _ rfl, hhead _ _ rfl, upTo_eq_nil (days_sessionsFrom hrest) hlater]
          exact ⟨rfl, rfl, fun _ hne => absurd rfl hne⟩
        · obtain rfl : equity = equity' := by
            rw [← equity_congr h hnames hday, hequity] at hequity'
            exact Except.ok.inj hequity'
          obtain rfl : orders₁ = orders₂ := by
            rw [← decide_congr h hnames hday, horders] at horders'
            exact Except.ok.inj horders'
          obtain ⟨hfills, hearlier, hwhole⟩ := ih (fun t ht => hcommon t (List.mem_cons_of_mem _ ht))
            hrest hrest'
          have hlength : (upTo d rest).length = (upTo d rest').length := by
            simpa using congrArg List.length hfills
          rw [hhead _ _ rfl, hhead _ _ rfl]
          exact ⟨by rw [List.map_cons, List.map_cons, hfills], dropLast_cons_congr hlength hearlier,
            fun hne hne' => by rw [hwhole hne hne']⟩

/-- A rising calendar, cut where a property starts to hold. -/
theorem cut_calendar {p : Day → Bool} (hp : ∀ a b, a < b → p a → p b) {calendar : List Day}
    (h : calendar.Pairwise (· < ·)) :
    calendar.filter (fun t => !p t) ++ calendar.filter p = calendar := by
  induction calendar with
  | nil => rfl
  | cons t calendar ih =>
      obtain ⟨ht, hrest⟩ := List.pairwise_cons.mp h
      rw [List.filter_cons, List.filter_cons]
      by_cases hpt : p t
      · have hall : ∀ x ∈ calendar, p x := fun x hx => hp t x (ht x hx) hpt
        have hnone : calendar.filter (fun t => !p t) = [] :=
          List.filter_eq_nil_iff.mpr fun x hx => by simpa using hall x hx
        rw [if_neg (by simpa using hpt), if_pos hpt, hnone, List.filter_eq_self.mpr hall,
          List.nil_append]
      · rw [if_pos (by simpa using hpt), if_neg hpt, List.cons_append, ih hrest]

/-- The sessions before the first are those the config leaves out. -/
theorem findIdx_rising {p : Day → Bool} (hp : ∀ a b, a < b → p a → p b) {calendar : List Day}
    (h : calendar.Pairwise (· < ·)) {n : ℕ} (hn : calendar.findIdx? p = some n) :
    n = (calendar.filter fun t => !p t).length := by
  induction calendar generalizing n with
  | nil => cases hn
  | cons t calendar ih =>
      obtain ⟨ht, hrest⟩ := List.pairwise_cons.mp h
      rw [List.findIdx?_cons] at hn
      rw [List.filter_cons]
      by_cases hpt : p t
      · rw [if_pos hpt] at hn
        have hnone : calendar.filter (fun t => !p t) = [] :=
          List.filter_eq_nil_iff.mpr fun x hx => by simpa using hp t x (ht x hx) hpt
        rw [if_neg (by simpa using hpt), hnone]
        exact (Option.some.inj hn).symm
      · rw [if_neg hpt] at hn
        obtain ⟨m, hm, rfl⟩ := Option.map_eq_some_iff.mp hn
        rw [if_pos (by simpa using hpt), List.length_cons, ih hrest hm]

/-- The sessions a config simulates. -/
def simulated (config : SwingConfig) (t : Day) : Bool := config.startDay.all (· ≤ t)

theorem simulated_mono (a b : Day) (hab : a < b) (ha : simulated config a) : simulated config b := by
  unfold simulated at ha ⊢
  cases hstart : config.startDay with
  | none => rfl
  | some start =>
      rw [hstart, Option.all_some] at ha
      rw [Option.all_some]
      exact decide_eq_true ((of_decide_eq_true ha).trans hab.le)

theorem firstIndex_eq {calendar : List Day} (h : calendar.Pairwise (· < ·)) {first : ℕ}
    (hfirst : firstIndex config calendar = .ok first) :
    first = (calendar.filter fun t => !simulated config t).length := by
  unfold firstIndex at hfirst
  cases hstart : config.startDay with
  | none =>
      rw [hstart] at hfirst
      simp [simulated, hstart, ← Except.ok.inj hfirst]
  | some start =>
      have hsimulated : simulated config = fun t => Decidable.decide (start ≤ t) := by
        funext t
        rw [simulated, hstart, Option.all_some]
      rw [hstart] at hfirst
      refine findIdx_rising simulated_mono h ?_
      rw [hsimulated]
      cases hfound : calendar.findIdx? (start ≤ ·) with
      | none =>
          simp only [hfound] at hfirst
          cases hfirst
      | some n =>
          simp only [hfound] at hfirst
          rw [Except.ok.inj hfirst]

theorem drop_firstIndex {calendar : List Day} (h : calendar.Pairwise (· < ·)) {first : ℕ}
    (hfirst : firstIndex config calendar = .ok first) :
    calendar.drop first = calendar.filter (simulated config) := by
  have hcut : calendar.filter (fun t => !simulated config t) ++ calendar.filter (simulated config) =
      calendar := cut_calendar simulated_mono h
  have hdrop : (calendar.filter (fun t => !simulated config t) ++
      calendar.filter (simulated config)).drop (calendar.filter fun t => !simulated config t).length =
      calendar.filter (simulated config) := List.drop_left
  rwa [hcut, ← firstIndex_eq h hfirst] at hdrop

/-- The sessions of a run up to a day, and behind it. -/
theorem cut_drop {x : SwingDataset} {first : ℕ} (hfirst : firstIndex config x.calendar = .ok first) :
    x.calendar.drop first = (x.calendar.filter (· ≤ d)).filter (simulated config) ++
      (x.calendar.filter (simulated config)).filter (d < ·) := by
  have hsorted : (x.calendar.filter (simulated config)).Pairwise (· < ·) := x.calendar_sorted.filter _
  have hmono : ∀ a b : Day, a < b → Decidable.decide (d < a) = true →
      Decidable.decide (d < b) = true :=
    fun a b hab ha => decide_eq_true ((of_decide_eq_true ha).trans hab)
  have hcut := cut_calendar hmono hsorted
  have hle : (x.calendar.filter (simulated config)).filter (fun t => !Decidable.decide (d < t)) =
      (x.calendar.filter (· ≤ d)).filter (simulated config) := by
    rw [List.filter_filter, List.filter_filter]
    refine List.filter_congr fun t _ => ?_
    rw [Bool.and_comm, ← decide_not]
    simp only [not_lt]
  rw [drop_firstIndex x.calendar_sorted hfirst, ← hle, hcut]

/-- **No look-ahead.** Runs on data that agree up to a day, with the same
names, are the same up to it. -/
theorem sameUpTo_of_agree {root : Decimal → Decimal} {initial : σ} {r r' : SwingRun}
    (h : AgreeUpTo d data data') (hnames : SameNames data data')
    (hr : run data config costs membership strategy root initial = .ok r)
    (hr' : run data' config costs membership strategy root initial = .ok r') :
    SameUpTo d data data' r r' := by
  obtain ⟨first, hfirst, -, hsessions, -⟩ := exists_sessions hr
  obtain ⟨first', hfirst', -, hsessions', -⟩ := exists_sessions hr'
  rw [cut_drop hfirst] at hsessions
  rw [cut_drop hfirst', ← calendar_congr h] at hsessions'
  have hlater (x : SwingDataset) : ∀ t ∈ (x.calendar.filter (simulated config)).filter (d < ·), d < t :=
    fun t ht => of_decide_eq_true (List.mem_filter.mp ht).2
  cases hcommon : (data.calendar.filter (· ≤ d)).filter (simulated config) with
  | nil =>
      -- neither run has a session up to the day
      rw [hcommon, List.nil_append] at hsessions hsessions'
      have hnil := upTo_eq_nil (days_sessionsFrom hsessions) (hlater data)
      have hnil' := upTo_eq_nil (days_sessionsFrom hsessions') (hlater data')
      exact ⟨by rw [hnil, hnil'], by rw [hnil, hnil'], fun _ _ => by rw [hnil, hnil']⟩
  | cons t common =>
      have ht : t ∈ (data.calendar.filter (· ≤ d)).filter (simulated config) := by
        rw [hcommon]
        exact List.mem_cons_self
      obtain ⟨hle, hsimulated⟩ := List.mem_filter.mp ht
      have hle : t ≤ d := of_decide_eq_true (List.mem_filter.mp hle).2
      have hbefore (x : SwingDataset) : x.calendar.filter (fun u => !simulated config u) =
          (x.calendar.filter (· ≤ d)).filter fun u => !simulated config u := by
        rw [List.filter_filter]
        refine List.filter_congr fun u _ => ?_
        rw [eq_comm, Bool.and_eq_left_iff_imp, Bool.not_eq_true', decide_eq_true_iff]
        intro hu
        by_contra hlt
        exact absurd (simulated_mono t u (hle.trans_lt (not_le.mp hlt)) hsimulated) (by simp [hu])
      have hfirsts : first = first' := by
        rw [firstIndex_eq data.calendar_sorted hfirst, firstIndex_eq data'.calendar_sorted hfirst',
          hbefore data, hbefore data', calendar_congr h]
      rw [hcommon] at hsessions hsessions'
      rw [← hfirsts] at hsessions'
      have hgoes (x : SwingDataset) (hx : ∃ u ∈ x.calendar, d < u) :
          (x.calendar.filter (simulated config)).filter (d < ·) ≠ [] := by
        obtain ⟨u, hu, hlt⟩ := hx
        exact List.ne_nil_of_mem (List.mem_filter.mpr ⟨List.mem_filter.mpr
          ⟨hu, simulated_mono t u (hle.trans_lt hlt) hsimulated⟩, decide_eq_true hlt⟩)
      have hupTo : ∀ u ∈ t :: common, u ≤ d := fun u hu => by
        rw [← hcommon] at hu
        exact of_decide_eq_true (List.mem_filter.mp (List.mem_of_mem_filter hu)).2
      obtain ⟨hfilled, hearlier, hwhole⟩ := same_sessionsFrom h hnames hupTo (hlater data)
        (hlater data') hsessions hsessions'
      exact ⟨hfilled, hearlier, fun hx hx' => hwhole (hgoes data hx) (hgoes data' hx')⟩

end Runs

/-! ## Small simulations -/

namespace Sample

theorem unit_pos : (0 : Decimal) < 1 := one_pos

theorem unit_ge : (1 : Decimal) ≤ 1 := le_rfl

theorem nothing_nonneg : (0 : Decimal) ≤ 0 := le_rfl

theorem flat_le (price : Decimal) : Money.mk price ≤ ⟨price⟩ := le_rfl

theorem flat_multiplier (price : Decimal) : price = price * 1 := (mul_one price).symm

/-- A session at one price, on both bases. -/
def session (name : String) (day : Day) (price : Decimal) : SwingBar :=
  let bar : Candle := ⟨name, .d1, 86400 * day * Timestamp.second, ⟨price⟩, ⟨price⟩, ⟨price⟩, ⟨price⟩,
    1000, false, flat_le price, flat_le price, flat_le price, flat_le price⟩
  ⟨day, bar, bar, 1, false, unit_pos, flat_multiplier price⟩

/-- One name on three sessions, at 100 until the last. -/
def closes (last : Decimal) : SwingDataset where
  series := [⟨"NSE:1", [session "NSE:1" 0 100, session "NSE:1" 1 100, session "NSE:1" 2 last],
    by simp [session]⟩]
  nodup := List.nodup_singleton _
  filled := by simp

/-- The same, with a name that is first traded on the last session. -/
def listed : SwingDataset where
  series := [⟨"NSE:1", [session "NSE:1" 0 100, session "NSE:1" 1 100, session "NSE:1" 2 100],
      by simp [session]⟩,
    ⟨"NSE:2", [session "NSE:2" 2 100], by simp⟩]
  nodup := by simp
  filled := by simp

theorem capital_pos : (0 : Decimal) < 10000 := by norm_num

theorem position_pos : 1 ≤ 1 := le_rfl

def config : SwingConfig where
  capital := 10000
  maxPositions := 1
  maxSizeMultiple := 1
  cashYield := 0
  startDay := none
  fill := .open
  cashYield_nonneg := nothing_nonneg
  capital_pos := capital_pos
  maxPositions_pos := position_pos
  maxSizeMultiple_ge := unit_ge

theorem no_rates_nonneg : (0 : Decimal) ≤ 0 ∧ (0 : Decimal) ≤ 0 ∧ (0 : Decimal) ≤ 0 ∧ (0 : Decimal) ≤ 0 :=
  ⟨le_rfl, le_rfl, le_rfl, le_rfl⟩

theorem no_charges_nonneg : Money.zero ≤ Money.zero ∧ Money.zero ≤ Money.zero ∧ Money.zero ≤ Money.zero :=
  ⟨le_rfl, le_rfl, le_rfl⟩

/-- No exchange takes a charge. -/
def freeRate (_ : Exchange) : Option Decimal := some 0

theorem freeRate_nonneg (exchange : Exchange) (rate : Decimal) (h : freeRate exchange = some rate) :
    0 ≤ rate := (Option.some.inj h).le

theorem freeRate_some : ∃ exchange, (freeRate exchange).isSome := ⟨.nse, rfl⟩

theorem delivered_nonneg (dp : Decimal) (hdp : 0 ≤ dp) : (0 : Decimal) ≤ 0 ∧ Money.zero ≤ ⟨dp⟩ := ⟨le_rfl, hdp⟩

/-- Free but for the depository charge. -/
def charged (dp : Decimal) (hdp : 0 ≤ dp) : SwingCostModel where
  schedule :=
    { brokerageFlat := Money.zero
      brokeragePercent := 0
      brokerageMinimum := Money.zero
      sttSellPercent := 0
      exchangeTransactionPercent := freeRate
      sebiPerCrore := Money.zero
      stampDutyBuyPercent := 0
      gstPercent := 0
      rates_nonneg := no_rates_nonneg
      transaction_nonneg := freeRate_nonneg
      charges_nonneg := no_charges_nonneg
      some_rate := freeRate_some
      sttBuyPercent := 0
      dpChargePerSale := ⟨dp⟩
      delivery_nonneg := delivered_nonneg dp hdp }
  scenario := ⟨1, 0, unit_ge, nothing_nonneg⟩

def dpCharge : SwingCostModel := charged 15 (by norm_num)

def everyone : Membership := fun _ _ => true

def wantsFirst : List Intent := [⟨"NSE:1", 1, unit_pos⟩]

/-- Wants the first name from the second session, for one session. -/
def oneDay : SwingStrategy Unit := fun _ context =>
  .ok (if context.day = 0 then wantsFirst else [], ())

/-- Wants it if it is the only one there is. -/
def onlyOne : SwingStrategy Unit := fun _ context =>
  .ok (if context.view.instrumentIds = ["NSE:1"] then wantsFirst else [], ())

end Sample

/-- A run ends, where what is read of it is computed. -/
theorem exists_run {α : Type} (data : SwingDataset) (strategy : SwingStrategy Unit)
    (f : SwingRun → α) {a : α}
    (h : (run data Sample.config Sample.dpCharge Sample.everyone strategy id ()).map f = .ok a) :
    ∃ r, run data Sample.config Sample.dpCharge Sample.everyone strategy id () = .ok r ∧ f r = a :=
  exists_of_map h

theorem Sample.agree_closes (a b : Decimal) : AgreeUpTo 1 (Sample.closes a) (Sample.closes b) := by
  intro name
  have hlookup (last : Decimal) : (Sample.closes last).barsUpTo name 1 =
      if "NSE:1" = name then [Sample.session "NSE:1" 0 100, Sample.session "NSE:1" 1 100] else [] := by
    unfold barsUpTo
    by_cases hname : "NSE:1" = name <;>
      simp [Sample.closes, Table.lookup, hname, SwingSeries.upTo, Sample.session, List.filter]
  rw [hlookup, hlookup]

theorem Sample.agree_listed : AgreeUpTo 1 (Sample.closes 100) Sample.listed := by
  intro name
  unfold barsUpTo
  by_cases hfirst : "NSE:1" = name
  · simp [Sample.closes, Sample.listed, Table.lookup, hfirst]
  · by_cases hsecond : "NSE:2" = name <;>
      simp [Sample.closes, Sample.listed, Table.lookup, hfirst, hsecond, SwingSeries.upTo,
        Sample.session]

/-- **A name not yet traded is seen.** The data agree on the first two
sessions; the strategy buys on one and not on the other. -/
theorem unlisted_name_seen : AgreeUpTo 1 (Sample.closes 100) Sample.listed ∧ ∃ r r',
    run (Sample.closes 100) Sample.config Sample.dpCharge Sample.everyone Sample.onlyOne id () = .ok r ∧
      run Sample.listed Sample.config Sample.dpCharge Sample.everyone Sample.onlyOne id () = .ok r' ∧
      ¬ SameUpTo 1 (Sample.closes 100) Sample.listed r r' := by
  obtain ⟨r, hr, hheld⟩ := exists_run (Sample.closes 100) Sample.onlyOne
    (fun r => (upTo 1 r.sessions).map (·.filled.positions.length)) (a := [0, 1]) (by decide +kernel)
  obtain ⟨r', hr', hheld'⟩ := exists_run Sample.listed Sample.onlyOne
    (fun r => (upTo 1 r.sessions).map (·.filled.positions.length)) (a := [0, 0]) (by decide)
  refine ⟨Sample.agree_listed, r, r', hr, hr', fun hsame => ?_⟩
  have hlengths := congrArg (List.map fun x : Day × State => x.2.positions.length) hsame.filled
  rw [List.map_map, List.map_map] at hlengths
  have : [0, 1] = [0, 0] := hheld.symm.trans (hlengths.trans hheld')
  exact absurd this (by decide)

end Swing

end Emporos
