import Emporos.Common.LittleEndian
import Emporos.Common.Numeral
import Emporos.Core.FloatTime
import Emporos.Marketdata.Ticks
/-!
# Tick frames

A frame of the market feed is little-endian and of a fixed layout:

    0      mode, 1 LTP, 2 QUOTE, 3 SNAP_QUOTE
    1      exchange type, 1 NSE_CM, 3 BSE_CM
    2-26   token, NUL-terminated ASCII
    27-50  sequence, exchange time in milliseconds, last price in paise
    51-74  last quantity, average price, day volume       (quotes only)
    75-90  total buy and sell quantity, float64
    91-122 open, high, low and previous close

and another 256 bytes of a SNAP_QUOTE that are not read. Lengths are exact. A
frame is refused with one of two exceptions or is a tick (`parse_spec`), and
what is read of it is all there is to know of it: the fields of the tick give
the bytes again.
-/

namespace Emporos

namespace Frames

open LittleEndian

inductive FeedMode
  | ltp
  | quote
  | snapQuote
  deriving DecidableEq

namespace FeedMode

def name : FeedMode → String
  | ltp => "LTP"
  | quote => "QUOTE"
  | snapQuote => "SNAP_QUOTE"

def code : FeedMode → UInt8
  | ltp => 1
  | quote => 2
  | snapQuote => 3

def length : FeedMode → ℕ
  | ltp => 51
  | quote => 123
  | snapQuote => 379

/-- The bytes at the end that are not read. -/
def unread : FeedMode → ℕ
  | snapQuote => 256
  | _ => 0

end FeedMode

structure QuoteData where
  averagePrice : Money
  totalBuyQuantity : Numeral
  totalSellQuantity : Numeral
  dayOpen : Money
  dayHigh : Money
  dayLow : Money
  previousClose : Money

/-- A raw tick with the fields that only a quote has. -/
structure FeedTick extends RawTick where
  lastTradedQuantity : Option ℤ
  quote : Option QuoteData
  token_ne : token ≠ ""

def MalformedFrameError (message : String) : PyError :=
  .broker "MalformedFrameError" .ambiguous message

def UnsupportedFrameError (message : String) : PyError :=
  .broker "UnsupportedFrameError" .ambiguous message

/-! ## Reading -/

/-- Some bytes of a frame, fewer where it ends. -/
def field (frame : List UInt8) (offset size : ℕ) : List UInt8 := (frame.drop offset).take size

def byte (frame : List UInt8) (offset : ℕ) : UInt8 := frame.getD offset 0

def int64 (frame : List UInt8) (offset : ℕ) : ℤ := signed (value (field frame offset 8))

def float64 (frame : List UInt8) (offset : ℕ) : Binary64 :=
  .ofWord (value (field frame offset 8))

structure Header where
  mode : UInt8
  exchange : UInt8
  token : List UInt8
  sequence : ℤ
  exchangeMs : ℤ
  ltpPaise : ℤ

structure QuoteFields where
  quantity : ℤ
  average : ℤ
  volume : ℤ
  buy : Binary64
  sell : Binary64
  dayOpen : ℤ
  high : ℤ
  low : ℤ
  close : ℤ

/-- `_HEADER.unpack_from`: `struct.error` if the frame is too short. -/
def unpackHeader (frame : List UInt8) : Except PyError Header :=
  if frame.length < 51 then .error (.other "error")
  else .ok ⟨byte frame 0, byte frame 1, field frame 2 25, int64 frame 27, int64 frame 35,
    int64 frame 43⟩

/-- `_QUOTE.unpack_from`. -/
def unpackQuote (frame : List UInt8) : Except PyError QuoteFields :=
  if frame.length < 123 then .error (.other "error")
  else .ok ⟨int64 frame 51, int64 frame 59, int64 frame 67, float64 frame 75, float64 frame 83,
    int64 frame 91, int64 frame 99, int64 frame 107, int64 frame 115⟩

/-- How the exchange counts its milliseconds. -/
inductive TimestampDecoder
  | epochMillisUtc
  | epochMillisIstWallClock

/-- `moment - _IST_OFFSET`. -/
def fromIndia (moment : Timestamp) : Except PyError Timestamp :=
  if moment - Timestamp.indiaOffset < Timestamp.earliest then .error (.other "OverflowError")
  else .ok (moment - Timestamp.indiaOffset)

def TimestampDecoder.decode (epochMs : ℤ) (decoder : TimestampDecoder) : Except PyError Timestamp :=
  let moment := Timestamp.fromTimestamp (Timestamp.secondsOf epochMs)
  match decoder with
  | epochMillisUtc => moment
  | epochMillisIstWallClock => moment >>= fromIndia

/-- 2015 to 2100. -/
def minTs : Timestamp := 1420070400 * Timestamp.second

def maxTs : Timestamp := 4102444800 * Timestamp.second

/-- `_money`: paise are hundredths. -/
def money (paise : ℤ) : Money := ⟨paise / 100⟩

def modeOf (code : UInt8) : Except PyError FeedMode :=
  if code = 1 then .ok .ltp
  else if code = 2 then .ok .quote
  else if code = 3 then .ok .snapQuote
  else if code = 4 then .error (UnsupportedFrameError "DEPTH frames are out of v1 scope")
  else .error (MalformedFrameError s!"unknown subscription mode {code.toNat}")

def exchangeOf (code : UInt8) : Except PyError String :=
  if code = 1 then .ok "NSE"
  else if code = 3 then .ok "BSE"
  else .error (UnsupportedFrameError s!"exchange type {code.toNat} is out of v1 scope")

/-- What stands before the first NUL. -/
def tokenText (raw : List UInt8) : List UInt8 := raw.takeWhile (· ≠ 0)

/-- ASCII, and printable. -/
def isPrintable (b : UInt8) : Bool := 32 ≤ b ∧ b ≤ 126

def charOf (b : UInt8) : Char := Char.ofNat b.toNat

def tokenOf (raw : List UInt8) : Except PyError String :=
  let text := tokenText raw
  if text ≠ [] ∧ text.all isPrintable then .ok (String.ofList (text.map charOf))
  else .error (MalformedFrameError "token is empty or not printable ASCII")

/-- `RawTick`, with the checks it makes. -/
def FeedTick.make (exchange token : String) (exchangeTs : Timestamp) (ltp : Money) (sequence : ℤ)
    (volume lastTradedQuantity : Option ℤ) (quote : Option QuoteData) : Except PyError FeedTick :=
  if htoken : token ≠ "" then
    if hltp : Money.zero < ltp then
      if volume.any (· < 0) then .error (.valueError "volume cannot be negative")
      else .ok ⟨⟨exchange, token, exchangeTs, ltp, sequence, volume.map Int.toNat, hltp⟩,
        lastTradedQuantity, quote, htoken⟩
    else .error (.valueError "a tick's price must be positive")
  else .error (.valueError "a tick needs a token")

namespace QuoteFields

variable (q : QuoteFields)

/-- A quantity or a price of a quote is negative. -/
def isNegative : Bool :=
  q.volume < 0 ∨ q.quantity < 0 ∨ min (min (min (min q.average q.dayOpen) q.high) q.low) q.close < 0

def data : QuoteData where
  averagePrice := money q.average
  totalBuyQuantity := q.buy.toNumeral
  totalSellQuantity := q.sell.toNumeral
  dayOpen := money q.dayOpen
  dayHigh := money q.high
  dayLow := money q.low
  previousClose := money q.close

end QuoteFields

/-- `_build`. -/
def build (decoder : TimestampDecoder) (frame : List UInt8) (mode : FeedMode) (exchange : String)
    (h : Header) : Except PyError FeedTick := do
  let token ← tokenOf h.token
  let exchangeTs ← decoder.decode h.exchangeMs
  if ¬ (minTs ≤ exchangeTs ∧ exchangeTs ≤ maxTs) then
    .error (MalformedFrameError "exchange timestamp is implausible")
  else if h.ltpPaise ≤ 0 then .error (MalformedFrameError "last price must be positive")
  else if mode = .ltp then
    FeedTick.make exchange token exchangeTs (money h.ltpPaise) h.sequence none none none
  else do
    let q ← unpackQuote frame
    if q.isNegative then .error (MalformedFrameError "negative quantity or price in a quote")
    else if ¬ (q.buy.isFinite ∧ q.sell.isFinite) then
      .error (MalformedFrameError "non-finite buy/sell quantity in a quote")
    else
      FeedTick.make exchange token exchangeTs (money h.ltpPaise) h.sequence
        (some q.volume) (some q.quantity) (some q.data)

/-- What the parser takes for invalid content. -/
def isContentError (e : PyError) : Bool :=
  e.isValueError ∨ e = .other "ArithmeticError" ∨ e = .other "OverflowError" ∨ e = .other "OSError"

/-- `TickFrameParser.parse`. -/
def parse (decoder : TimestampDecoder) (frame : List UInt8) : Except PyError FeedTick := do
  if frame.length < 51 then
    .error (MalformedFrameError s!"frame too short ({frame.length} bytes)")
  else do
    let h ← unpackHeader frame
    let mode ← modeOf h.mode
    let exchange ← exchangeOf h.exchange
    if frame.length ≠ mode.length then
      .error (MalformedFrameError
        s!"{mode.name} frame must be {mode.length} bytes, got {frame.length}")
    else
      match build decoder frame mode exchange h with
      | .ok tick => .ok tick
      | .error e =>
          if isContentError e then
            .error (MalformedFrameError s!"invalid tick content: {e.typeName}")
          else .error e

/-! ## The layout -/

/-- Quantities and prices that must not be negative, by their offsets. -/
def amountOffsets : List ℕ := [51, 59, 67, 91, 99, 107, 115]

def totalOffsets : List ℕ := [75, 83]

/-- What a mode lets through of the fields behind the first two. -/
structure Content (decoder : TimestampDecoder) (frame : List UInt8) (mode : FeedMode) : Prop where
  token : tokenText (field frame 2 25) ≠ [] ∧ ∀ b ∈ tokenText (field frame 2 25), isPrintable b
  timestamp : ∃ ts, decoder.decode (int64 frame 35) = .ok ts ∧ minTs ≤ ts ∧ ts ≤ maxTs
  ltp : 0 < int64 frame 43
  amounts : mode ≠ .ltp → ∀ offset ∈ amountOffsets, 0 ≤ int64 frame offset
  totals : mode ≠ .ltp → ∀ offset ∈ totalOffsets, (float64 frame offset).isFinite

/-- A frame of the layout. -/
structure WellFormed (decoder : TimestampDecoder) (frame : List UInt8) (mode : FeedMode) : Prop
    extends Content decoder frame mode where
  code : byte frame 0 = mode.code
  length : frame.length = mode.length
  exchange : byte frame 1 = 1 ∨ byte frame 1 = 3

/-! ## Writing -/

def exchangeCode (exchange : String) : UInt8 := if exchange = "BSE" then 3 else 1

def int64Bytes (i : ℤ) : List UInt8 := bytes 8 (unsigned i)

def float64Bytes (x : Binary64) : List UInt8 := bytes 8 x.word

def paise (m : Money) : ℤ := ⌊m.amount * 100⌋

def TimestampDecoder.epochMs (moment : Timestamp) : TimestampDecoder → ℤ
  | epochMillisUtc => moment / 1000
  | epochMillisIstWallClock => (moment + Timestamp.indiaOffset) / 1000

/-- A token, and what is behind its NUL if there is one. -/
def tokenField (token : String) (behind : List UInt8) : List UInt8 :=
  let text := token.toList.map fun c => UInt8.ofNat c.toNat
  if text.length < 25 then text ++ 0 :: behind else text

def encodeHeader (decoder : TimestampDecoder) (mode : FeedMode) (behind : List UInt8)
    (t : FeedTick) : List UInt8 :=
  [mode.code, exchangeCode t.exchange] ++ tokenField t.token behind ++ int64Bytes t.sequence ++
    int64Bytes (decoder.epochMs t.exchangeTs) ++ int64Bytes (paise t.ltp)

def encodeQuote (volume : ℕ) (quantity : ℤ) (q : QuoteData) : List UInt8 :=
  int64Bytes quantity ++ int64Bytes (paise q.averagePrice) ++ int64Bytes volume ++
    float64Bytes (.ofNumeral q.totalBuyQuantity) ++ float64Bytes (.ofNumeral q.totalSellQuantity) ++
    int64Bytes (paise q.dayOpen) ++ int64Bytes (paise q.dayHigh) ++ int64Bytes (paise q.dayLow) ++
    int64Bytes (paise q.previousClose)

/-- The fields of a tick in the layout. -/
def encode (decoder : TimestampDecoder) (mode : FeedMode) (behind : List UInt8) (t : FeedTick) :
    List UInt8 :=
  encodeHeader decoder mode behind t ++
    match t.volume, t.lastTradedQuantity, t.quote with
    | some volume, some quantity, some q => encodeQuote volume quantity q
    | _, _, _ => []

/-! ## Fields of a frame -/

variable {frame : List UInt8}

theorem length_field {offset size : ℕ} (h : offset + size ≤ frame.length) :
    (field frame offset size).length = size := by
  rw [field, List.length_take, List.length_drop]
  omega

theorem field_append (offset size size' : ℕ) :
    field frame offset size ++ field frame (offset + size) size' =
      field frame offset (size + size') := by
  rw [field, field, field, List.take_add, List.drop_drop]

theorem field_byte {offset : ℕ} (h : offset < frame.length) :
    [byte frame offset] = field frame offset 1 := by
  rw [byte, field, List.drop_eq_getElem_cons h, List.getD_eq_getElem?_getD, List.getElem?_eq_getElem h]
  rfl

theorem int64Bytes_int64 {offset : ℕ} (h : offset + 8 ≤ frame.length) :
    int64Bytes (int64 frame offset) = field frame offset 8 := by
  have hlength := length_field h
  have hlt : value (field frame offset 8) < 2 ^ 64 := by
    have := value_lt (field frame offset 8)
    rw [hlength] at this
    exact this
  have := bytes_value (field frame offset 8)
  rw [hlength] at this
  rw [int64Bytes, int64, unsigned_signed hlt, this]

theorem float64Bytes_float64 {offset : ℕ} (h : offset + 8 ≤ frame.length)
    (hfinite : (float64 frame offset).isFinite = true) :
    float64Bytes (.ofNumeral (float64 frame offset).toNumeral) = field frame offset 8 := by
  have hlength := length_field h
  have hlt : value (field frame offset 8) < 2 ^ 64 := by
    have := value_lt (field frame offset 8)
    rw [hlength] at this
    exact this
  have := bytes_value (field frame offset 8)
  rw [hlength] at this
  rw [float64Bytes, Binary64.ofNumeral_toNumeral hfinite, float64, Binary64.word_ofWord hlt, this]

theorem paise_money (p : ℤ) : paise (money p) = p := by
  simp [paise, money]

theorem charOf_toNat {b : UInt8} (h : isPrintable b = true) :
    UInt8.ofNat (charOf b).toNat = b := by
  have hle : b.toNat ≤ 126 := UInt8.le_iff_toNat_le.mp (of_decide_eq_true h).2
  have hvalid : b.toNat.isValidChar := Or.inl (by omega)
  rw [charOf, Char.ofNat, dif_pos hvalid]
  exact UInt8.ofNat_toNat

/-- A token and what is behind it are the field. -/
theorem tokenField_eq {raw : List UInt8} (hlength : raw.length = 25)
    (hprintable : ∀ b ∈ tokenText raw, isPrintable b = true) :
    ∃ behind, tokenField (String.ofList ((tokenText raw).map charOf)) behind = raw := by
  have htext : ((String.ofList ((tokenText raw).map charOf)).toList.map
      fun c => UInt8.ofNat c.toNat) = tokenText raw := by
    rw [String.toList_ofList, List.map_map]
    exact (List.map_congr_left fun b hb => charOf_toNat (hprintable b hb)).trans (List.map_id _)
  have hsplit : tokenText raw ++ raw.dropWhile (· ≠ 0) = raw := List.takeWhile_append_dropWhile
  cases hrest : raw.dropWhile (· ≠ 0) with
  | nil =>
      rw [hrest, List.append_nil] at hsplit
      refine ⟨[], ?_⟩
      rw [tokenField, htext, hsplit, if_neg (by omega)]
  | cons b behind =>
      have hzero : b = 0 := by
        have := List.head?_dropWhile_not (fun b : UInt8 => decide (b ≠ 0)) raw
        rw [hrest] at this
        simpa using this
      rw [hrest, hzero] at hsplit
      have hshort : (tokenText raw).length < 25 := by
        have := congrArg List.length hsplit
        rw [List.length_append, List.length_cons] at this
        omega
      refine ⟨behind, ?_⟩
      rw [tokenField, htext, if_pos hshort, hsplit]

/-! ## What is read of a frame -/

variable {decoder : TimestampDecoder} {mode : FeedMode} {exchange : String}

def headerOf (frame : List UInt8) : Header :=
  ⟨byte frame 0, byte frame 1, field frame 2 25, int64 frame 27, int64 frame 35, int64 frame 43⟩

def quoteOf (frame : List UInt8) : QuoteFields :=
  ⟨int64 frame 51, int64 frame 59, int64 frame 67, float64 frame 75, float64 frame 83,
    int64 frame 91, int64 frame 99, int64 frame 107, int64 frame 115⟩

/-- A tick that says what a frame says. -/
structure Describes (decoder : TimestampDecoder) (frame : List UInt8) (mode : FeedMode)
    (exchange : String) (t : FeedTick) : Prop where
  exchange : t.exchange = exchange
  token : t.token = String.ofList ((tokenText (field frame 2 25)).map charOf)
  sequence : t.sequence = int64 frame 27
  timestamp : decoder.decode (int64 frame 35) = .ok t.exchangeTs
  ltp : t.ltp = money (int64 frame 43)
  volume : t.volume = if mode = .ltp then none else some (int64 frame 67).toNat
  quantity : t.lastTradedQuantity = if mode = .ltp then none else some (int64 frame 51)
  quote : t.quote = if mode = .ltp then none else some (quoteOf frame).data

theorem money_pos {p : ℤ} (h : 0 < p) : Money.zero < money p := by
  rw [Money.lt_iff]
  have : (0 : ℚ) < p := by exact_mod_cast h
  simp only [Money.zero_amount, money]
  positivity

theorem isNegative_iff :
    (quoteOf frame).isNegative = false ↔ ∀ offset ∈ amountOffsets, 0 ≤ int64 frame offset := by
  rw [QuoteFields.isNegative, decide_eq_false_iff_not]
  simp only [quoteOf, amountOffsets, List.forall_mem_cons, List.not_mem_nil]
  constructor
  · intro h
    refine ⟨?_, ?_, ?_, ?_, ?_, ?_, ?_, nofun⟩ <;> omega
  · rintro ⟨hquantity, haverage, hvolume, hopen, hhigh, hlow, hclose, -⟩
    omega

theorem decode_error {ms : ℤ} {e : PyError} (h : decoder.decode ms = .error e) :
    isContentError e = true := by
  have hepoch : ∀ {e}, Timestamp.fromTimestamp (Timestamp.secondsOf ms) = .error e →
      isContentError e = true := by
    intro e h
    unfold Timestamp.fromTimestamp at h
    dsimp only at h
    split_ifs at h
    cases h
    rfl
  unfold TimestampDecoder.decode at h
  generalize Timestamp.fromTimestamp (Timestamp.secondsOf ms) = decoded at h hepoch
  cases decoder with
  | epochMillisUtc => exact hepoch h
  | epochMillisIstWallClock =>
      cases decoded with
      | error e' => exact hepoch h
      | ok moment =>
          simp only [ok_bind, fromIndia] at h
          split_ifs at h
          cases h
          rfl

/-- **A moment of the accepted range says its milliseconds.** -/
theorem epochMs_decode {ms : ℤ} {ts : Timestamp} (h : decoder.decode ms = .ok ts)
    (hmin : minTs ≤ ts) (hmax : ts ≤ maxTs) : decoder.epochMs ts = ms := by
  have hepoch : ∀ {moment}, Timestamp.fromTimestamp (Timestamp.secondsOf ms) = .ok moment →
      minTs ≤ moment → moment ≤ maxTs + Timestamp.indiaOffset → moment = 1000 * ms := by
    intro moment h hmin hmax
    unfold Timestamp.fromTimestamp at h
    dsimp only at h
    split_ifs at h
    obtain rfl := Except.ok.inj h
    rcases lt_or_ge ms 0 with hneg | hnonneg
    · have := Timestamp.microsOf_secondsOf_nonpos hneg
      simp only [minTs, Timestamp.second, Timestamp, Duration] at *
      omega
    · rcases lt_or_ge ms (2 ^ 33 * 1000) with hlt | hge
      · exact Timestamp.microsOf_secondsOf hnonneg hlt
      · have := Timestamp.le_microsOf_secondsOf hge
        simp only [maxTs, Timestamp.indiaOffset, Timestamp.second, Timestamp, Duration] at *
        omega
  unfold TimestampDecoder.decode at h
  generalize Timestamp.fromTimestamp (Timestamp.secondsOf ms) = decoded at h hepoch
  cases decoder with
  | epochMillisUtc =>
      have := hepoch h hmin (hmax.trans (by decide))
      simp only [TimestampDecoder.epochMs, Timestamp] at *
      omega
  | epochMillisIstWallClock =>
      obtain ⟨moment, hmoment, h⟩ := exists_of_bind h
      unfold fromIndia at h
      split_ifs at h
      obtain rfl := Except.ok.inj h
      have := hepoch hmoment
        (by simp only [minTs, Timestamp.indiaOffset, Timestamp.second, Timestamp, Duration] at *
            omega)
        (by simp only [maxTs, Timestamp.indiaOffset, Timestamp.second, Timestamp, Duration] at *
            omega)
      simp only [TimestampDecoder.epochMs, Timestamp.indiaOffset, Timestamp.second, Timestamp,
        Duration] at *
      omega

theorem make_ok {token : String} {ts : Timestamp} {ltp : Money} {sequence : ℤ}
    {volume quantity : Option ℤ} {quote : Option QuoteData} (htoken : token ≠ "")
    (hltp : Money.zero < ltp) (hvolume : ∀ v ∈ volume, 0 ≤ v) :
    FeedTick.make exchange token ts ltp sequence volume quantity quote =
      .ok ⟨⟨exchange, token, ts, ltp, sequence, volume.map Int.toNat, hltp⟩, quantity, quote,
        htoken⟩ := by
  have hany : volume.any (· < 0) = false := by
    cases volume with
    | none => rfl
    | some v => simpa using hvolume v rfl
  rw [FeedTick.make, dif_pos htoken, dif_pos hltp, hany]
  rfl

/-- **The content of a frame.** It is described by a tick, or an exception
says that it is invalid. -/
theorem build_spec (hlength : frame.length = mode.length) :
    (∃ t, build decoder frame mode exchange (headerOf frame) = .ok t ∧
      Content decoder frame mode ∧ Describes decoder frame mode exchange t) ∨
    ∃ e, build decoder frame mode exchange (headerOf frame) = .error e ∧
      (isContentError e = true ∨ ∃ m, e = MalformedFrameError m) ∧
      ¬ Content decoder frame mode := by
  unfold build headerOf
  dsimp only
  by_cases htoken : tokenText (field frame 2 25) ≠ [] ∧
      (tokenText (field frame 2 25)).all isPrintable = true
  case neg =>
    rw [tokenOf, if_neg htoken]
    refine .inr ⟨_, rfl, .inr ⟨_, rfl⟩, fun h => htoken ⟨h.token.1, ?_⟩⟩
    exact List.all_eq_true.mpr h.token.2
  rw [tokenOf, if_pos htoken, ok_bind]
  cases hts : decoder.decode (int64 frame 35) with
  | error e =>
      refine .inr ⟨e, rfl, .inl (decode_error hts), fun h => ?_⟩
      obtain ⟨ts, hok, -⟩ := h.timestamp
      rw [hts] at hok
      cases hok
  | ok ts =>
      rw [ok_bind]
      by_cases hrange : minTs ≤ ts ∧ ts ≤ maxTs
      case neg =>
        rw [if_pos hrange]
        refine .inr ⟨_, rfl, .inr ⟨_, rfl⟩, fun h => ?_⟩
        obtain ⟨ts', hok, hmin, hmax⟩ := h.timestamp
        rw [hts] at hok
        obtain rfl := Except.ok.inj hok
        exact hrange ⟨hmin, hmax⟩
      rw [if_neg (not_not.mpr hrange)]
      by_cases hltp : int64 frame 43 ≤ 0
      · rw [if_pos hltp]
        exact .inr ⟨_, rfl, .inr ⟨_, rfl⟩, fun h => absurd h.ltp (not_lt.mpr hltp)⟩
      rw [if_neg hltp]
      have hpos := money_pos (not_le.mp hltp)
      have hne : String.ofList ((tokenText (field frame 2 25)).map charOf) ≠ "" := fun h => by
        have := congrArg String.toList h
        simp at this
        exact htoken.1 this
      have hprintable := List.all_eq_true.mp htoken.2
      by_cases hmode : mode = .ltp
      · rw [if_pos hmode, make_ok hne hpos (by simp)]
        refine .inl ⟨_, rfl, ⟨⟨htoken.1, hprintable⟩, ⟨ts, hts, hrange⟩, not_le.mp hltp,
          absurd hmode, absurd hmode⟩, ?_⟩
        constructor <;> simp [hmode, hts]
      rw [if_neg hmode]
      have hunpack : unpackQuote frame = .ok (quoteOf frame) := by
        have : 123 ≤ mode.length := by
          cases mode <;> first | exact absurd rfl hmode | decide
        rw [unpackQuote, if_neg (by omega)]
        rfl
      rw [hunpack, ok_bind]
      by_cases hnegative : (quoteOf frame).isNegative = true
      · rw [if_pos hnegative]
        refine .inr ⟨_, rfl, .inr ⟨_, rfl⟩, fun h => ?_⟩
        rw [isNegative_iff.2 (h.amounts hmode)] at hnegative
        cases hnegative
      rw [if_neg hnegative]
      have hamounts := isNegative_iff.1 (Bool.eq_false_iff.mpr hnegative)
      by_cases hfinite : (quoteOf frame).buy.isFinite = true ∧ (quoteOf frame).sell.isFinite = true
      case neg =>
        rw [if_pos hfinite]
        refine .inr ⟨_, rfl, .inr ⟨_, rfl⟩, fun h => hfinite ?_⟩
        exact ⟨h.totals hmode 75 (by decide), h.totals hmode 83 (by decide)⟩
      rw [if_neg (not_not.mpr hfinite), make_ok hne hpos
        (fun v hv => by obtain rfl := Option.some.inj hv; exact hamounts 67 (by decide))]
      refine .inl ⟨_, rfl, ⟨⟨htoken.1, hprintable⟩, ⟨ts, hts, hrange⟩, not_le.mp hltp,
        fun _ => hamounts, fun _ => ?_⟩, ?_⟩
      · rw [totalOffsets, List.forall_mem_cons, List.forall_mem_singleton]
        exact hfinite
      · constructor <;> simp [hmode, hts, quoteOf]

/-! ## What the parser does -/

/-- One of the two exceptions of the parser. -/
def IsFrameError (e : PyError) : Prop :=
  (∃ m, e = MalformedFrameError m) ∨ ∃ m, e = UnsupportedFrameError m

theorem modeOf_spec (code : UInt8) :
    (∃ mode, modeOf code = .ok mode ∧ code = mode.code) ∨
      ∃ e, modeOf code = .error e ∧ IsFrameError e ∧ ∀ mode : FeedMode, code ≠ mode.code := by
  unfold modeOf
  split_ifs with h1 h2 h3 h4
  · exact .inl ⟨.ltp, rfl, h1⟩
  · exact .inl ⟨.quote, rfl, h2⟩
  · exact .inl ⟨.snapQuote, rfl, h3⟩
  all_goals
    refine .inr ⟨_, rfl, ?_, fun mode => by cases mode <;> assumption⟩
    first | exact .inl ⟨_, rfl⟩ | exact .inr ⟨_, rfl⟩

theorem exchangeOf_spec (code : UInt8) :
    (∃ exchange, exchangeOf code = .ok exchange ∧ (code = 1 ∨ code = 3) ∧
        exchangeCode exchange = code) ∨
      ∃ e, exchangeOf code = .error e ∧ IsFrameError e ∧ ¬ (code = 1 ∨ code = 3) := by
  unfold exchangeOf
  split_ifs with h1 h3
  · exact .inl ⟨"NSE", rfl, .inl h1, h1 ▸ rfl⟩
  · exact .inl ⟨"BSE", rfl, .inr h3, h3 ▸ rfl⟩
  · exact .inr ⟨_, rfl, .inr ⟨_, rfl⟩, not_or.mpr ⟨h1, h3⟩⟩

theorem FeedMode.header_le (mode : FeedMode) : 51 ≤ mode.length := by cases mode <;> decide

theorem FeedMode.code_injective : Function.Injective FeedMode.code := by
  intro a b h
  cases a <;> cases b <;> first | rfl | exact absurd h (by decide)

/-- A frame is one of its layout and is described, or it is refused. -/
theorem parse_cases (decoder : TimestampDecoder) (frame : List UInt8) :
    (∃ mode exchange t, parse decoder frame = .ok t ∧ WellFormed decoder frame mode ∧
      exchangeCode exchange = byte frame 1 ∧ Describes decoder frame mode exchange t) ∨
    ∃ e, parse decoder frame = .error e ∧ IsFrameError e ∧
      ∀ mode, ¬ WellFormed decoder frame mode := by
  unfold parse
  by_cases hshort : frame.length < 51
  · rw [if_pos hshort]
    refine .inr ⟨_, rfl, .inl ⟨_, rfl⟩, fun mode h => ?_⟩
    have := mode.header_le
    have := h.length
    omega
  have hheader : unpackHeader frame = .ok (headerOf frame) := by
    rw [unpackHeader, if_neg hshort]
    rfl
  rw [if_neg hshort, hheader, ok_bind]
  rcases modeOf_spec (headerOf frame).mode with ⟨mode, hmode, hcode⟩ | ⟨e, hmode, he, hnone⟩
  case inr =>
    rw [hmode]
    exact .inr ⟨e, rfl, he, fun mode h => hnone mode h.code⟩
  rw [hmode, ok_bind]
  rcases exchangeOf_spec (headerOf frame).exchange with
    ⟨exchange, hexchange, hknown, hback⟩ | ⟨e, hexchange, he, hnone⟩
  case inr =>
    rw [hexchange]
    exact .inr ⟨e, rfl, he, fun mode h => hnone h.exchange⟩
  rw [hexchange, ok_bind]
  by_cases hlength : frame.length = mode.length
  case neg =>
    rw [if_pos hlength]
    refine .inr ⟨_, rfl, .inl ⟨_, rfl⟩, fun mode' h => hlength ?_⟩
    rw [h.length, FeedMode.code_injective (hcode.symm.trans h.code)]
  rw [if_neg (not_not.mpr hlength)]
  rcases @build_spec frame decoder mode exchange hlength with
    ⟨t, ht, hcontent, hdescribes⟩ | ⟨e, he, hkind, hcontent⟩
  · rw [ht]
    exact .inl ⟨mode, exchange, t, rfl, ⟨hcontent, hcode, hlength, hknown⟩, hback, hdescribes⟩
  · rw [he]
    have hnot : ∀ mode', ¬ WellFormed decoder frame mode' := fun mode' h => hcontent (by
      rw [FeedMode.code_injective (hcode.symm.trans h.code)]
      exact h.toContent)
    dsimp only
    by_cases hcaught : isContentError e = true
    · rw [if_pos hcaught]
      exact .inr ⟨_, rfl, .inl ⟨_, rfl⟩, hnot⟩
    · rw [if_neg hcaught]
      exact .inr ⟨e, rfl, .inl (hkind.resolve_left hcaught), hnot⟩

theorem encodeHeader_eq {t : FeedTick} (h : WellFormed decoder frame mode)
    (hexchange : exchangeCode exchange = byte frame 1)
    (ht : Describes decoder frame mode exchange t) :
    ∃ behind, encodeHeader decoder mode behind t = field frame 0 51 := by
  have hlength := h.length
  have hheader := mode.header_le
  obtain ⟨ts, hts, hmin, hmax⟩ := h.timestamp
  obtain rfl : ts = t.exchangeTs := Except.ok.inj (hts.symm.trans ht.timestamp)
  obtain ⟨behind, hbehind⟩ := tokenField_eq (length_field (by omega)) h.token.2
  refine ⟨behind, ?_⟩
  have hfirst : [mode.code, exchangeCode t.exchange] = field frame 0 2 := by
    rw [ht.exchange, hexchange, ← h.code, ← field_append 0 1 1, ← field_byte (by omega),
      ← field_byte (by omega)]
    rfl
  rw [encodeHeader, hfirst, ht.token, hbehind, ht.sequence, epochMs_decode hts hmin hmax, ht.ltp,
    paise_money, int64Bytes_int64 (by omega), int64Bytes_int64 (by omega),
    int64Bytes_int64 (by omega)]
  rw [field_append 0 2 25, field_append 0 27 8, field_append 0 35 8, field_append 0 43 8]

theorem encodeQuote_eq (h : WellFormed decoder frame mode) (hmode : mode ≠ .ltp) :
    encodeQuote (int64 frame 67).toNat (int64 frame 51) (quoteOf frame).data =
      field frame 51 72 := by
  have hlength : 123 ≤ frame.length := by
    rw [h.length]
    cases mode <;> first | exact absurd rfl hmode | decide
  have hvolume : (((int64 frame 67).toNat : ℕ) : ℤ) = int64 frame 67 :=
    Int.toNat_of_nonneg (h.amounts hmode 67 (by decide))
  have hbuy := float64Bytes_float64 (by omega) (h.totals hmode 75 (by decide))
  have hsell := float64Bytes_float64 (by omega) (h.totals hmode 83 (by decide))
  simp only [encodeQuote, QuoteFields.data, quoteOf, paise_money, hvolume, hbuy, hsell]
  rw [int64Bytes_int64 (by omega), int64Bytes_int64 (by omega), int64Bytes_int64 (by omega),
    int64Bytes_int64 (by omega), int64Bytes_int64 (by omega), int64Bytes_int64 (by omega),
    int64Bytes_int64 (by omega)]
  rw [field_append 51 8 8, field_append 51 16 8, field_append 51 24 8, field_append 51 32 8,
    field_append 51 40 8, field_append 51 48 8, field_append 51 56 8, field_append 51 64 8]

/-- What is read of a frame is its bytes but for the last of a SNAP_QUOTE. -/
theorem encode_eq {t : FeedTick} (h : WellFormed decoder frame mode)
    (hexchange : exchangeCode exchange = byte frame 1)
    (ht : Describes decoder frame mode exchange t) :
    ∃ behind, encode decoder mode behind t = frame.take (mode.length - mode.unread) := by
  obtain ⟨behind, hbehind⟩ := encodeHeader_eq h hexchange ht
  refine ⟨behind, ?_⟩
  rw [encode, hbehind, ht.volume, ht.quantity, ht.quote]
  by_cases hmode : mode = .ltp
  · subst hmode
    simp [field, FeedMode.length, FeedMode.unread]
  · have hread : mode.length - mode.unread = 123 := by
      cases mode <;> first | exact absurd rfl hmode | decide
    simp only [if_neg hmode]
    rw [encodeQuote_eq h hmode, field_append 0 51 72, hread]
    rfl

/-- **What the parser accepts.** Of every byte string: it is refused with one
of the two exceptions or is a tick; it is a tick exactly if it is of the
layout; and the fields of the tick give its bytes again, but for those
behind the NUL of the token and those of a SNAP_QUOTE that are not read. -/
theorem parse_spec (decoder : TimestampDecoder) (frame : List UInt8) :
    (∀ e, parse decoder frame = .error e → IsFrameError e) ∧
    ((∃ t, parse decoder frame = .ok t) ↔ ∃ mode, WellFormed decoder frame mode) ∧
    ∀ t, parse decoder frame = .ok t → ∃ mode behind rest, byte frame 0 = mode.code ∧
      frame = encode decoder mode behind t ++ rest ∧ rest.length = mode.unread := by
  rcases parse_cases decoder frame with ⟨mode, exchange, t, ht, hwell, hexchange, hdescribes⟩ |
    ⟨e, he, hkind, hnone⟩
  · refine ⟨fun e he => ?_, ⟨fun _ => ⟨mode, hwell⟩, fun _ => ⟨t, ht⟩⟩, fun t' ht' => ?_⟩
    · rw [ht] at he
      cases he
    · obtain rfl := Except.ok.inj (ht.symm.trans ht')
      obtain ⟨behind, hbehind⟩ := encode_eq hwell hexchange hdescribes
      refine ⟨mode, behind, frame.drop (mode.length - mode.unread), hwell.code, ?_, ?_⟩
      · rw [hbehind, List.take_append_drop]
      · rw [List.length_drop, hwell.length]
        cases mode <;> rfl
  · refine ⟨fun e' he' => ?_, ⟨?_, ?_⟩, fun t ht => ?_⟩
    · obtain rfl := Except.error.inj (he.symm.trans he')
      exact hkind
    · rintro ⟨t, ht⟩
      rw [he] at ht
      cases ht
    · rintro ⟨mode, hwell⟩
      exact absurd hwell (hnone mode)
    · rw [he] at ht
      cases ht

end Frames

end Emporos
