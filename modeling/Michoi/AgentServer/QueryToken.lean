/-
  The token in the query (`query_param`, and `withToken` of `pad.html`).

  The browser sends `encodeURIComponent` of the token. The server undoes two of its escapes
  and then takes each plus sign for a blank, so a token arrives as it was sent exactly where
  every character stands for itself or is an equals sign (`token_reaches_iff`).
-/
import Michoi.AgentServer.Token

namespace Michoi

/-! ## `encodeURIComponent` -/

/-- The characters that `encodeURIComponent` leaves alone. -/
def isUnreserved (c : Char) : Bool := c.isAlphanum || "-_.!~*'()".toList.contains c

/-- A hexadecimal digit, in upper case. -/
def hexDigit (d : Nat) : Char := d.digitChar.toUpper

/-- The escape of a byte. -/
def percent (b : UInt8) : List Char := ['%', hexDigit (b.toNat / 16), hexDigit (b.toNat % 16)]

def encodeUriChar (c : Char) : List Char :=
  if isUnreserved c then [c] else (String.utf8EncodeChar c).flatMap percent

/-- `encodeURIComponent`. -/
def encodeUriComponent (s : String) : List Char := s.toList.flatMap encodeUriChar

/-- What `query_param` makes of a value. -/
def decodeValue (v : List Char) : List Char :=
  replace ['+'] [' '] (replace "%2B".toList ['+'] (replace "%3D".toList ['='] v))

/-- What the server makes of a character that was encoded. -/
def arrives (c : Char) : List Char :=
  if c = '=' then [c] else if c = '+' then [' '] else encodeUriChar c

/-- A character that arrives as it was sent. -/
def isPlain (c : Char) : Bool := isUnreserved c || c == '='

/-! ## Text with escapes -/

/-- A piece of such text. -/
inductive QueryPiece where
  | plain (c : Char)
  | escape (b : UInt8)

namespace QueryPiece

def text : QueryPiece → List Char
  | plain c => [c]
  | escape b => percent b

/-- The escape of a byte becomes a character. -/
def undo (b : UInt8) (c : Char) : QueryPiece → QueryPiece
  | plain d => plain d
  | escape b' => if b' = b then plain c else escape b'

/-- No escape is taken apart. -/
def Whole : QueryPiece → Prop
  | plain c => c ≠ '%'
  | escape _ => True

end QueryPiece

theorem isUnreserved_hexDigit {d : Nat} (h : d < 16) : isUnreserved (hexDigit d) = true := by
  revert d
  decide

theorem hexDigit_ne {d : Nat} (h : d < 16) : hexDigit d ≠ '%' := by
  intro heq
  have hunreserved := isUnreserved_hexDigit h
  rw [heq] at hunreserved
  exact absurd hunreserved (by decide)

theorem hexDigit_inj {d e : Nat} (hd : d < 16) (he : e < 16) (h : hexDigit d = hexDigit e) :
    d = e := by
  have hall : ∀ d < 16, ∀ e < 16, hexDigit d = hexDigit e → d = e := by decide
  exact hall d hd e he h

theorem percent_inj {b b' : UInt8} (h : percent b = percent b') : b = b' := by
  have hb := b.toNat_lt
  have hb' := b'.toNat_lt
  simp only [percent, List.cons.injEq, and_true, true_and] at h
  have hhigh := hexDigit_inj (by omega) (by omega) h.1
  have hlow := hexDigit_inj (by omega) (by omega) h.2
  exact UInt8.toNat_inj.mp (by omega)

/-- An escape is undone wherever it stands, and nothing else is touched. -/
theorem replace_escape (b : UInt8) (c : Char) {pieces : List QueryPiece}
    (h : ∀ p ∈ pieces, p.Whole) :
    replace (percent b) [c] (pieces.flatMap QueryPiece.text) =
      (pieces.map (QueryPiece.undo b c)).flatMap QueryPiece.text := by
  induction pieces with
  | nil => rfl
  | cons p pieces ih =>
      have hrest := ih fun q hq => h q (List.mem_cons_of_mem _ hq)
      have hnot {d : Char} (hd : d ≠ '%') (cs : List Char) : ¬ percent b <+: d :: cs :=
        fun hprefix => hd (List.cons_prefix_cons.mp hprefix).1.symm
      rw [List.flatMap_cons, List.map_cons, List.flatMap_cons, ← hrest]
      cases p with
      | plain d => exact replace_cons (hnot (h _ List.mem_cons_self) _)
      | escape b' =>
          by_cases hb : b' = b
          · subst hb
            rw [QueryPiece.undo, if_pos rfl]
            exact replace_old (by simp [percent]) _
          · have hb' := b'.toNat_lt
            have hhigh := @hexDigit_ne (b'.toNat / 16) (by omega)
            have hlow := @hexDigit_ne (b'.toNat % 16) (by omega)
            have hother : ¬ percent b <+: percent b' ++ pieces.flatMap QueryPiece.text := by
              intro hprefix
              refine hb (percent_inj ?_).symm
              exact (List.prefix_of_prefix_length_le hprefix (List.prefix_append _ _)
                (Nat.le_refl 3)).eq_of_length rfl
            rw [QueryPiece.undo, if_neg hb]
            exact (replace_cons hother).trans (congrArg _ ((replace_cons (hnot hhigh _)).trans
              (congrArg _ (replace_cons (hnot hlow _)))))

theorem whole_undo {b : UInt8} {c : Char} (hc : c ≠ '%') {p : QueryPiece} (h : p.Whole) :
    (p.undo b c).Whole := by
  cases p with
  | plain d => exact h
  | escape b' =>
      by_cases hb : b' = b
      · rw [QueryPiece.undo, if_pos hb]
        exact hc
      · rw [QueryPiece.undo, if_neg hb]
        exact h

/-! ## What arrives -/

/-- The pieces of an encoded character. -/
def piecesOf (c : Char) : List QueryPiece :=
  if isUnreserved c then [.plain c] else (String.utf8EncodeChar c).map .escape

theorem text_piecesOf (c : Char) : (piecesOf c).flatMap QueryPiece.text = encodeUriChar c := by
  unfold piecesOf encodeUriChar
  split
  · rfl
  · rw [List.flatMap_map]
    rfl

theorem whole_piecesOf (c : Char) : ∀ p ∈ piecesOf c, p.Whole := by
  unfold piecesOf
  split
  · next h =>
      intro p hp
      rw [List.mem_singleton.mp hp]
      rintro rfl
      exact absurd h (by decide)
  · simp [QueryPiece.Whole]

/-- The two escapes that are undone. -/
def undone (c : Char) : List QueryPiece :=
  ((piecesOf c).map (QueryPiece.undo 0x3d '=')).map (QueryPiece.undo 0x2b '+')

/-- Encoded text is made of unreserved characters and percent signs. -/
theorem mem_encodeUriChar {c d : Char} (h : d ∈ encodeUriChar c) :
    isUnreserved d = true ∨ d = '%' := by
  unfold encodeUriChar at h
  split at h
  · next hc =>
      rw [List.mem_singleton.mp h]
      exact .inl hc
  · obtain ⟨b, -, hb⟩ := List.mem_flatMap.mp h
    have hlt := b.toNat_lt
    simp only [percent, List.mem_cons, List.not_mem_nil, or_false] at hb
    rcases hb with rfl | rfl | rfl
    · exact .inr rfl
    · exact .inl (isUnreserved_hexDigit (by omega))
    · exact .inl (isUnreserved_hexDigit (by omega))

/-- The escape of an ASCII character stands for nothing else. -/
theorem map_undo_of_ne {c d : Char} (hd : d.toNat < 128) (hne : c ≠ d) (e : Char) :
    (piecesOf c).map (QueryPiece.undo (UInt8.ofNat d.toNat) e) = piecesOf c := by
  refine (List.map_congr_left fun p hp => ?_).trans (List.map_id _)
  cases p with
  | plain x => rfl
  | escape b =>
      refine if_neg ?_
      rintro rfl
      unfold piecesOf at hp
      split at hp
      · simp at hp
      · obtain ⟨b, hb, heq⟩ := List.mem_map.mp hp
        rw [QueryPiece.escape.inj heq] at hb
        have hbyte : (UInt8.ofNat d.toNat).toNat = d.toNat := toNat_ofNat_lt (by omega)
        have heq := toNat_of_mem_encode hb (by omega)
        rw [hbyte] at heq
        exact hne (by rw [← Char.ofNat_toNat c, ← heq, Char.ofNat_toNat])

/-- A character whose escape is not undone keeps its pieces. -/
theorem undone_eq {c : Char} (hequals : c ≠ '=') (hplus : c ≠ '+') : undone c = piecesOf c := by
  have h₁ := map_undo_of_ne (by decide) hequals '='
  have h₂ := map_undo_of_ne (by decide) hplus '+'
  unfold undone
  rw [show (0x3d : UInt8) = UInt8.ofNat '='.toNat from rfl, h₁,
    show (0x2b : UInt8) = UInt8.ofNat '+'.toNat from rfl, h₂]

/-- Plus signs that are left stand for blanks. -/
theorem plus_undone (c : Char) :
    ((undone c).flatMap QueryPiece.text).map (fun x => if x = '+' then ' ' else x) = arrives c := by
  unfold arrives
  by_cases hequals : c = '='
  · subst hequals
    decide
  · by_cases hplus : c = '+'
    · subst hplus
      decide
    · rw [if_neg hequals, if_neg hplus, undone_eq hequals hplus, text_piecesOf]
      refine (List.map_congr_left fun x hx => ?_).trans (List.map_id _)
      refine if_neg ?_
      rintro rfl
      exact absurd (mem_encodeUriChar hx) (by decide)

/-- **What arrives**, character by character. -/
theorem decode_encode (s : String) :
    decodeValue (encodeUriComponent s) = s.toList.flatMap arrives := by
  have htext : encodeUriComponent s = (s.toList.flatMap piecesOf).flatMap QueryPiece.text := by
    unfold encodeUriComponent
    rw [List.flatMap_assoc]
    exact List.flatMap_congr fun c _ => (text_piecesOf c).symm
  have hwhole : ∀ p ∈ s.toList.flatMap piecesOf, p.Whole := by
    intro p hp
    obtain ⟨c, -, hc⟩ := List.mem_flatMap.mp hp
    exact whole_piecesOf c p hc
  have hstill : ∀ p ∈ (s.toList.flatMap piecesOf).map (QueryPiece.undo 0x3d '='), p.Whole := by
    intro p hp
    obtain ⟨q, hq, rfl⟩ := List.mem_map.mp hp
    exact whole_undo (by decide) (hwhole q hq)
  have hequals := replace_escape 0x3d '=' hwhole
  have hplus := replace_escape 0x2b '+' hstill
  rw [show percent 0x3d = "%3D".toList by decide] at hequals
  rw [show percent 0x2b = "%2B".toList by decide] at hplus
  have hundone : ((s.toList.flatMap piecesOf).map (QueryPiece.undo 0x3d '=')).map
      (QueryPiece.undo 0x2b '+') =
      s.toList.flatMap undone := by
    rw [List.map_flatMap, List.map_flatMap]
    rfl
  unfold decodeValue
  rw [htext, hequals, hplus, hundone, replace_char, List.flatMap_assoc, List.map_flatMap]
  exact List.flatMap_congr fun c _ => plus_undone c

/-! ## Plain tokens -/

theorem arrives_plain {c : Char} (h : isPlain c = true) : arrives c = [c] := by
  unfold arrives
  by_cases hequals : c = '='
  · rw [if_pos hequals]
  · have hunreserved : isUnreserved c = true := by
      simpa [isPlain, hequals] using h
    have hplus : c ≠ '+' := by
      rintro rfl
      exact absurd hunreserved (by decide)
    rw [if_neg hequals, if_neg hplus, encodeUriChar, if_pos hunreserved]

theorem flatMap_plain {cs : List Char} (h : ∀ c ∈ cs, isPlain c = true) :
    cs.flatMap arrives = cs := by
  refine (List.flatMap_congr fun c hc => arrives_plain (h c hc)).trans ?_
  simp

/-- A character that arrives as another is seen to. -/
theorem exists_not_plain {c : Char} (h : isPlain c = false) :
    ∃ d ∈ arrives c, isPlain d = false := by
  unfold arrives
  by_cases hequals : c = '='
  · subst hequals
    exact absurd h (by decide)
  · rw [if_neg hequals]
    by_cases hplus : c = '+'
    · rw [if_pos hplus]
      exact ⟨' ', List.mem_singleton_self _, by decide⟩
    · have hunreserved : isUnreserved c ≠ true := by
        simpa [isPlain, hequals] using h
      rw [if_neg hplus, encodeUriChar, if_neg hunreserved]
      obtain ⟨b, hb⟩ := List.exists_mem_of_ne_nil _ (String.utf8EncodeChar_ne_nil (c := c))
      exact ⟨'%', List.mem_flatMap.mpr ⟨b, hb, List.mem_cons_self⟩, by decide⟩

/-- What arrives as a plain token was that token. -/
theorem eq_of_arrives_plain {us ts : List Char} (hplain : ∀ c ∈ ts, isPlain c = true)
    (h : us.flatMap arrives = ts) : us = ts := by
  have hus : ∀ c ∈ us, isPlain c = true := by
    intro c hc
    by_contra hnot
    obtain ⟨d, hd, hdplain⟩ := exists_not_plain (Bool.eq_false_iff.mpr hnot)
    have hmem : d ∈ ts := h ▸ List.mem_flatMap.mpr ⟨c, hc, hd⟩
    rw [hplain d hmem] at hdplain
    exact Bool.noConfusion hdplain
  rw [← h, flatMap_plain hus]

/-- A character that is not plain becomes a blank, or an escape of three characters or more. -/
theorem arrives_of_not_plain {c : Char} (h : isPlain c = false) :
    c = '+' ∧ arrives c = [' '] ∨ 3 ≤ (arrives c).length := by
  unfold arrives
  by_cases hequals : c = '='
  · subst hequals
    exact absurd h (by decide)
  · rw [if_neg hequals]
    by_cases hplus : c = '+'
    · exact .inl ⟨hplus, if_pos hplus⟩
    · have hunreserved : isUnreserved c ≠ true := by
        simpa [isPlain, hequals] using h
      obtain ⟨b, rest, hb⟩ := List.exists_cons_of_ne_nil (String.utf8EncodeChar_ne_nil (c := c))
      rw [if_neg hplus, encodeUriChar, if_neg hunreserved, hb, List.flatMap_cons,
        List.length_append]
      exact .inr (Nat.le_add_right 3 _)

theorem one_le_length_arrives (c : Char) : 1 ≤ (arrives c).length := by
  cases h : isPlain c with
  | true =>
      rw [arrives_plain h]
      exact Nat.le_refl 1
  | false =>
      rcases arrives_of_not_plain h with ⟨-, heq⟩ | hlong
      · rw [heq]
        exact Nat.le_refl 1
      · exact Nat.le_trans (by decide) hlong

theorem length_le_flatMap (cs : List Char) : cs.length ≤ (cs.flatMap arrives).length := by
  induction cs with
  | nil => exact Nat.le_refl 0
  | cons c cs ih =>
      have hone := one_le_length_arrives c
      rw [List.flatMap_cons, List.length_append, List.length_cons]
      omega

/-- A token that arrives as it was sent is plain. -/
theorem plain_of_flatMap {cs : List Char} (h : cs.flatMap arrives = cs) :
    ∀ c ∈ cs, isPlain c = true := by
  induction cs with
  | nil => nofun
  | cons c cs ih =>
      rw [List.flatMap_cons] at h
      have hc : isPlain c = true := by
        by_contra hnot
        rcases arrives_of_not_plain (Bool.eq_false_iff.mpr hnot) with ⟨rfl, heq⟩ | hlong
        · rw [heq] at h
          exact absurd (List.cons.inj h).1 (by decide)
        · have hrest := length_le_flatMap cs
          have hlength := congrArg List.length h
          rw [List.length_append, List.length_cons] at hlength
          omega
      rw [arrives_plain hc] at h
      exact List.forall_mem_cons.mpr ⟨hc, ih (List.cons.inj h).2⟩

/-! ## Requests -/

/-- The query carries the encoded token, behind parameters of other names. -/
def SendsQuery (r : Request) (token : String) : Prop :=
  ∃ before after : List (List Char),
    (∀ p ∈ before ++ after, '&' ∉ p) ∧
    (∀ p ∈ before, (splitOnce '=' p).map Prod.fst ≠ some "token".toList) ∧
    r.query.toList =
      ['&'].intercalate (before ++ ("token=".toList ++ encodeUriComponent token) :: after)

/-- The header carries the token. -/
def SendsHeader (r : Request) (token : String) : Prop :=
  r.header "authorization" = some ("Bearer " ++ token)

/-- What one parameter of the query gives for a name. -/
def readParam (name : String) (pair : List Char) : Option String :=
  (splitOnce '=' pair).bind fun kv =>
    if kv.1 = name.toList then some (String.ofList (decodeValue kv.2)) else none

theorem queryParam_eq (r : Request) (name : String) :
    r.queryParam name = (r.query.toList.splitOn '&').findSome? (readParam name) := rfl

/-- What the server reads in the query. -/
theorem queryParam_of_sendsQuery {r : Request} {token : String} (h : SendsQuery r token) :
    r.queryParam "token" = some (String.ofList (token.toList.flatMap arrives)) := by
  obtain ⟨before, after, hwhole, hother, hquery⟩ := h
  have hsent : '&' ∉ "token=".toList ++ encodeUriComponent token := by
    rw [List.mem_append, not_or]
    refine ⟨by decide, fun hmem => ?_⟩
    obtain ⟨c, -, hc⟩ := List.mem_flatMap.mp hmem
    exact absurd (mem_encodeUriChar hc) (by decide)
  have hparts : ∀ p ∈ before ++ ("token=".toList ++ encodeUriComponent token) :: after,
      '&' ∉ p := by
    intro p hp
    rw [List.mem_append, List.mem_cons] at hp
    rcases hp with hp | rfl | hp
    · exact hwhole p (List.mem_append_left _ hp)
    · exact hsent
    · exact hwhole p (List.mem_append_right _ hp)
  have hskip : ∀ p ∈ before, readParam "token" p = none := by
    intro p hp
    have hname := hother p hp
    unfold readParam
    cases hsplit : splitOnce '=' p with
    | none => rfl
    | some kv =>
        rw [hsplit] at hname
        exact if_neg fun heq => hname (congrArg some heq)
  have hfound : splitOnce '=' ("token=".toList ++ encodeUriComponent token) =
      some ("token".toList, encodeUriComponent token) :=
    @splitOnce_append '=' "token".toList (by decide) _
  have hread : readParam "token" ("token=".toList ++ encodeUriComponent token) =
      some (String.ofList (token.toList.flatMap arrives)) := by
    unfold readParam
    rw [hfound, Option.bind_some, if_pos rfl, decode_encode]
  rw [queryParam_eq, hquery, List.splitOn_intercalate '&' hparts (by simp),
    List.findSome?_append, List.findSome?_eq_none_iff.mpr hskip, List.findSome?_cons, hread]
  rfl

/-- **The query and the header agree** on the token. -/
structure TokenReaches (token : String) : Prop where
  query : ∀ r, SendsQuery r token → authorized r (some token) = true
  header : ∀ r, SendsHeader r token → authorized r (some token) = true
  other : ∀ r sent, sent ≠ token → SendsQuery r sent → r.bearer ≠ some token.toList →
    authorized r (some token) = false

/-- The header presents the token that it carries. -/
theorem bearer_of_sendsHeader {r : Request} {token : String}
    (htrim : trimChars token.toList = token.toList) (h : SendsHeader r token) :
    r.bearer = some token.toList := by
  have hstrip : stripPrefix "Bearer ".toList ("Bearer " ++ token).toList = some token.toList := by
    rw [String.toList_append]
    unfold stripPrefix
    rw [if_pos (List.prefix_append _ _), List.drop_left]
  unfold Request.bearer
  rw [h, Option.bind_some, hstrip, Option.some_or, Option.map_some, htrim]

/-- A request with nothing but the token in its query. -/
def queryRequest (token : String) : Request where
  method := "GET"
  path := "/v1/events"
  query := String.ofList ("token=".toList ++ encodeUriComponent token)
  headers := []
  body := []
  keepAlive := true

theorem sendsQuery_queryRequest (token : String) : SendsQuery (queryRequest token) token :=
  ⟨[], [], nofun, nofun, by
    rw [queryRequest, String.toList_ofList]
    exact (List.append_nil _).symm⟩

/-- **Tokens that reach the server.** A token that is free of blanks at its ends is accepted
    in the query as it is in the header exactly where each of its characters is unreserved or
    an equals sign. -/
theorem token_reaches_iff {token : String} (htrim : trimChars token.toList = token.toList) :
    TokenReaches token ↔ ∀ c ∈ token.toList, isPlain c = true := by
  constructor
  · intro h
    have hquery := (authorized_iff _ _).mp (h.query _ (sendsQuery_queryRequest token))
    have harrives : (queryRequest token).queryParam "token" = some token :=
      hquery.resolve_left nofun
    rw [queryParam_of_sendsQuery (sendsQuery_queryRequest token), Option.some_inj] at harrives
    have hlist := congrArg String.toList harrives
    rw [String.toList_ofList] at hlist
    exact plain_of_flatMap hlist
  · intro hplain
    refine ⟨fun r h => ?_, fun r h => ?_, fun r sent hne h hbearer => ?_⟩
    · rw [authorized_iff, Presents, queryParam_of_sendsQuery h, flatMap_plain hplain,
        String.ofList_toList]
      exact .inr rfl
    · exact (authorized_iff _ _).mpr (.inl (bearer_of_sendsHeader htrim h))
    · rw [Bool.eq_false_iff]
      intro hauthorized
      have hquery := ((authorized_iff _ _).mp hauthorized).resolve_left hbearer
      rw [queryParam_of_sendsQuery h, Option.some_inj] at hquery
      have hlist := congrArg String.toList hquery
      rw [String.toList_ofList] at hlist
      exact hne (String.toList_inj.mp (eq_of_arrives_plain hplain hlist))

theorem token_reaches_base64url : TokenReaches "mVq-8_tZ=" := by
  have hplain : ("mVq-8_tZ=".toList.all isPlain) = true := by decide +kernel
  exact (token_reaches_iff (by decide +kernel)).mpr (List.all_eq_true.mp hplain)

/-- A plus sign arrives as a blank, so that the token is refused and another is taken for it. -/
theorem plus_token_refused : trimChars "a+b".toList = "a+b".toList ∧ ¬ TokenReaches "a+b" ∧
    authorized (queryRequest "a+b") (some "a b") = true := by
  refine ⟨by decide +kernel, fun h => ?_, ?_⟩
  · have := h.query _ (sendsQuery_queryRequest "a+b")
    revert this
    decide +kernel
  · decide +kernel

end Michoi
