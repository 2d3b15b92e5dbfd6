import ShardKv.Foundations.FrameLog
import ShardKv.Protocol.FastCodec

/-!
# Reading native requests back

A request within the limits of the codec is read back when its opcode says how to read
it, and a part of its frame is not taken for anything. Whatever the decoder accepts, it
accepts from the bytes of the frame. The exception is the number in front of a compact
list: of a number that does not fit 32 bits the decoder keeps the low ones.
-/
namespace ShardKv

open FastField ByteReader FastCommand List

/-- The byte strings of a command. -/
def FastCommand.slices : FastCommand → List Bytes
  | .ping payload => payload.toList
  | .auth | .hello _ | .select _ | .quit | .info | .command | .commandDocs | .dbSize | .time
  | .clientGetName | .clientId | .clientList | .clientKill => []
  | .echo key | .clientSetName key | .get key | .getEx key _ | .delete key | .existsKey key
  | .ttl key | .expire key _ | .hLen key | .lPop key | .rPop key | .lLen key | .lIndex key _
  | .lRange key _ _ | .sCard key | .sMembers key | .zCard key | .zRange key _ _ => [key]
  | .set key value | .setEx key value _ | .hGet key value | .hDel key value | .sIsMember key value
  | .zAdd key _ value | .zRem key value | .zScore key value => [key, value]
  | .hSet key field value => [key, field, value]
  | .configGet values | .mGet values | .respCommand values | .redisCommand _ values => values
  | .mSet items => items.flatMap fun item => [item.1, item.2]
  | .hMGet key values | .lPush key values | .rPush key values | .sAdd key values
  | .sRem key values | .nativeRedisCommand key values => key :: values

/-- The number of items in the list of a command. -/
def FastCommand.listLen : FastCommand → ℕ
  | .configGet values | .mGet values | .respCommand values | .redisCommand _ values
  | .hMGet _ values | .lPush _ values | .rPush _ values | .sAdd _ values | .sRem _ values
  | .nativeRedisCommand _ values => values.length
  | .mSet items => items.length
  | _ => 0

/-- A compact list can only be read as the arguments of the Redis command its opcode names. -/
def FastCommand.Named : FastCommand → Prop
  | .redisCommand kind _ => kind.redisName ≠ none
  | _ => True

namespace FastCodec

variable {values args : List Bytes} {slice : Bytes} {sent : FastCommand} {key : String} {α : Type}
  (kind : FastCommandKind)

/-- The requests the codec is made for. -/
structure InLimits (request : FastRequest) : Prop where
  ping : request.command ≠ .ping (some [])
  list : request.command.listLen ≤ fastMaxCollectionItems
  body : (encodeRequestBody request).length < 2 ^ 32

theorem length_le_encodeLenPrefixedList (h : slice ∈ values) :
    slice.length ≤ (encodeLenPrefixedList values).length := by
  have hitem := length_le_length_flatMap encodeLenPrefixed h
  simp only [encodeLenPrefixed, encodeLenPrefixedList, length_append] at hitem ⊢
  omega

theorem length_le_encodeCompactList (h : slice ∈ values) :
    slice.length ≤ (encodeCompactLenPrefixedList values).length := by
  have hitem := length_le_length_flatMap encodeCompactLenPrefixed h
  simp only [encodeCompactLenPrefixed, encodeCompactLenPrefixedList, length_append] at hitem ⊢
  omega

theorem length_le_encodeKeyList {key : Bytes} (h : slice ∈ key :: values) :
    slice.length ≤ (encodeKeyList key values).length := by
  rw [encodeKeyList, length_append, encodeLenPrefixed, length_append]
  rcases mem_cons.mp h with rfl | h
  · omega
  · have := length_le_encodeLenPrefixedList h
    omega

/-- A slice of a command is a part of its encoding, and so not longer. -/
theorem length_le_encodeCommand (h : slice ∈ sent.slices) :
    slice.length ≤ (encodeCommand sent).length := by
  cases sent with
  | ping payload =>
    cases payload with
    | none => cases h
    | some payload =>
      rw [mem_singleton.mp h]
      exact le_rfl
  | configGet values | mGet values | respCommand values => exact length_le_encodeLenPrefixedList h
  | redisCommand => exact length_le_encodeCompactList h
  | hMGet key values | lPush key values | rPush key values | sAdd key values | sRem key values =>
    exact length_le_encodeKeyList h
  | nativeRedisCommand name values =>
    rw [encodeCommand, length_append, encodeLenPrefixed, length_append]
    rcases mem_cons.mp h with rfl | h
    · omega
    · have := length_le_encodeCompactList h
      omega
  | mSet items =>
    obtain ⟨item, hitem, hslice⟩ := mem_flatMap.mp h
    have hlen := length_le_length_flatMap encodeKeyValue hitem
    simp only [encodeCommand, encodeKeyValue, encodeKeyValueList, length_append] at hlen ⊢
    rcases mem_pair.mp hslice with rfl | rfl <;> omega
  | _ =>
    simp only [slices, mem_cons, not_mem_nil, or_false] at h
    all_goals
      simp only [encodeCommand, encodeLenPrefixed, encodeKeyField, encodeKeyValue,
        encodeKeyFieldValue, length_append]
      rcases h with rfl | rfl | rfl <;> omega

theorem within_takePayload : Within [] takePayload Option.toList := by
  intro body value rest h
  cases h
  refine ⟨body, (append_nil body).symm, fun piece hpiece => .inr ?_⟩
  split_ifs at hpiece
  · cases hpiece
  · rw [mem_singleton.mp hpiece]

theorem within_takeHelloProto : Within [] takeHelloProto fun _ => [] := by
  have hproto : Within [] (some <$> takeU64 "fast HELLO proto") fun _ => [] :=
    within_takeU64.map fun _ _ hpiece => hpiece
  intro body value rest h
  rw [takeHelloProto] at h
  split_ifs at h
  · exact hproto body value rest h
  · cases h
    exact ⟨[], rfl, nofun⟩

theorem within_takeWordPair {make : Bytes → Bytes → UInt64 → FastCommand} {word pair : String}
    (h : ∀ key value word, (make key value word).slices = [key, value]) :
    Within [] (takeWordPair make word pair) slices :=
  within_takeU64.bind fun word => within_takeKeyValue.bind fun item => within_pure (by simp [h])

theorem within_redisCommand (field : String) :
    Within [] (FastCommand.redisCommand kind <$> takeCompactLenPrefixedList field) slices :=
  within_takeCompactLenPrefixedList.map fun _ _ hpiece => hpiece

/-- The slices of a command come from its body, whatever the opcode is. -/
theorem within_takeCommand : Within [] (takeCommand kind) slices := by
  cases kind with
  | ping => exact within_takePayload.map fun _ _ hpiece => hpiece
  | hello => exact within_takeHelloProto.map fun _ _ hpiece => hpiece
  | select => exact within_takeU64.map fun _ _ hpiece => hpiece
  | auth | quit | info | command | commandDocs | dbSize | time | clientGetName | clientId
  | clientList | clientKill => exact within_pure nofun
  | echo | clientSetName | get | delete | existsKey | ttl | hLen | lPop | rPop | lLen | sCard
  | sMembers | zCard => exact within_takeLenPrefixedSlice.map fun _ _ hpiece => hpiece
  | configGet | mGet | respCommand =>
    exact within_takeLenPrefixedList.map fun _ _ hpiece => hpiece
  | set | hGet | hDel | sIsMember | zRem | zScore =>
    exact within_takeKeyValue.map fun _ _ hpiece => hpiece
  | hMGet | lPush | rPush | sAdd | sRem => exact within_takeKeyList.map fun _ _ hpiece => hpiece
  | mSet => exact (within_takeList within_takeLen within_takeKeyValue).map fun _ _ hpiece => hpiece
  | hSet => exact within_takeKeyFieldValue.map fun _ _ hpiece => hpiece
  | getEx | expire =>
    exact within_takeU64.bind fun _ => within_takeLenPrefixedSlice.bind fun _ =>
      within_pure (by simp [slices])
  | lRange | zRange =>
    exact within_takeI64.bind fun _ => within_takeI64.bind fun _ =>
      within_takeLenPrefixedSlice.bind fun _ => within_pure (by simp [slices])
  | setEx => exact within_takeWordPair fun _ _ _ => rfl
  | zAdd => exact (within_takeWordPair fun _ _ _ => rfl : Within [] (takeWordPair makeZAdd _ _) _)
  | lIndex =>
    exact within_takeI64.bind fun _ => within_takeLenPrefixedSlice.bind fun _ =>
      within_pure (by simp [slices])
  | nativeRedisCommand => exact within_throw _
  | _ => exact within_redisCommand _ _

theorem within_takeRedisCommand : Within [] (takeRedisCommand kind) slices := by
  refine within_ite (within_throw _) (within_ite ?_ (within_redisCommand kind _))
  exact within_takeLenPrefixedSlice.bind fun name => within_takeCompactLenPrefixedList.bind
    fun args => within_pure (by simp +contextual [slices])

theorem within_takeFlagged {take : ByteReader α} (flagged : Bool) (h : Within [] take fun _ => []) :
    Within [] (takeFlagged flagged take) fun _ => [] :=
  within_ite (h.map fun _ _ hpiece => hpiece) (within_pure nofun)

theorem within_ensureFinished (field : String) : Within [] (ensureFinished field) fun _ => [] := by
  intro body value rest h
  rw [ensureFinished] at h
  split_ifs at h
  cases h
  exact ⟨[], rfl, nofun⟩

variable (flags : UInt8)

theorem within_takeCommandBody : Within [] (takeCommandBody kind flags) slices :=
  within_ite (within_takeRedisCommand kind) (within_takeCommand kind)

theorem within_takeRequest :
    Within [] (takeRequest kind flags) fun request => request.command.slices :=
  (within_takeFlagged _ within_takeU64).bind fun keyHash =>
    (within_takeFlagged _ within_takeU32).bind fun routeShard =>
      (within_takeFlagged _ within_takeU64).bind fun keyTag =>
        (within_takeCommandBody kind flags).bind fun parsed =>
          (within_ensureFinished _).bind fun _ => within_pure (by simp +contextual)

theorem takeHelloProto_encode (proto : Option UInt64) :
    takeHelloProto (encodeCommand (.hello proto)) = .ok (proto, []) := by
  cases proto with
  | none => rfl
  | some proto =>
    have hread := ((reads_takeU64 proto : Reads (takeU64 "fast HELLO proto") _ _).map some).run
    rw [takeHelloProto, if_pos (by simp [encodeCommand])]
    exact hread

theorem map_run {β : Type} {reader : ByteReader α} {bytes : Bytes} {value : α}
    (h : reader bytes = .ok (value, [])) (f : α → β) :
    (f <$> reader) bytes = .ok (f value, []) := by
  show (do let (a, s) ← reader bytes; pure (f a, s)) = _
  rw [h]
  rfl

theorem takePayload_encode {payload : Option Bytes} (h : payload ≠ some []) :
    takePayload (encodeCommand (.ping payload)) = .ok (payload, []) := by
  cases payload with
  | none => rfl
  | some payload =>
    have hne : payload ≠ [] := fun hnil => h (congrArg some hnil)
    rw [takePayload]
    show Except.ok (if payload = [] then none else some payload, []) = _
    rw [if_neg hne]

section Shapes

variable {slice value : Bytes} {first second : String}

theorem reads_takeWordPair (make : Bytes → Bytes → UInt64 → FastCommand) (word : UInt64)
    (h : slice.length < 2 ^ 32) (hvalue : value.length < 2 ^ 32) :
    Reads (takeWordPair make first second)
      (leBytes 8 word.toNat ++ encodeKeyValue (slice, value)) (make slice value word) :=
  (reads_takeU64 word).bind (reads_takeKeyValue h hvalue).bindPure

end Shapes

/-- A typed body is read back by the opcode of its command. Only `PING` and `HELLO` look at where
the body ends. -/
theorem reads_takeCommand (htyped : sent.takesRedisArgs = false)
    (hping : ∀ payload, sent ≠ .ping payload) (hhello : ∀ proto, sent ≠ .hello proto)
    (hlist : sent.listLen ≤ fastMaxCollectionItems)
    (hslices : ∀ slice ∈ sent.slices, slice.length < 2 ^ 32) :
    Reads (takeCommand sent.kind) (encodeCommand sent) sent := by
  cases sent with
  | redisCommand | nativeRedisCommand => cases htyped
  | ping => exact absurd rfl (hping _)
  | hello => exact absurd rfl (hhello _)
  | select db => exact (reads_takeU64 db).map _
  | auth | quit | info | command | commandDocs | dbSize | time | clientGetName | clientId
  | clientList | clientKill => exact reads_pure _
  | echo key | clientSetName key | get key | delete key | existsKey key | ttl key | hLen key
  | lPop key | rPop key | lLen key | sCard key | sMembers key | zCard key =>
    exact (reads_takeLenPrefixedSlice (hslices key (.head _))).map _
  | configGet values | mGet values | respCommand values =>
    exact (reads_takeLenPrefixedList hlist hslices).map _
  | set key value | hGet key value | hDel key value | sIsMember key value | zRem key value
  | zScore key value =>
    have hvalue := hslices value (.tail _ (.head _))
    exact (reads_takeKeyValue (hslices key (.head _)) hvalue).map _
  | hMGet key values | lPush key values | rPush key values | sAdd key values | sRem key values =>
    have hvalues : ∀ value ∈ values, value.length < 2 ^ 32 := fun value hvalue =>
      hslices value (.tail _ hvalue)
    exact (reads_takeKeyList (hslices key (.head _)) hlist hvalues).map _
  | mSet items =>
    have hitems : ∀ item ∈ items, item.1.length < 2 ^ 32 ∧ item.2.length < 2 ^ 32 :=
      fun item hitem => ⟨hslices _ (mem_flatMap.mpr ⟨item, hitem, .head _⟩),
        hslices _ (mem_flatMap.mpr ⟨item, hitem, .tail _ (.head _)⟩)⟩
    exact (reads_takeKeyValueList hlist hitems).map _
  | hSet key field value =>
    have hfield := hslices field (.tail _ (.head _))
    have hvalue := hslices value (.tail _ (.tail _ (.head _)))
    exact (reads_takeKeyFieldValue (hslices key (.head _)) hfield hvalue).map _
  | getEx key ttlMs | expire key ttlMs =>
    exact (reads_takeU64 ttlMs).bind (reads_takeLenPrefixedSlice (hslices key (.head _))).bindPure
  | lRange key start stop | zRange key start stop =>
    rw [encodeCommand, append_assoc]
    exact (reads_takeI64 start).bind ((reads_takeI64 stop).bind
      (reads_takeLenPrefixedSlice (hslices key (.head _))).bindPure)
  | setEx key value ttlMs =>
    have hvalue := hslices value (.tail _ (.head _))
    exact reads_takeWordPair _ ttlMs (hslices key (.head _)) hvalue
  | zAdd key score member =>
    have hmember := hslices member (.tail _ (.head _))
    exact reads_takeWordPair makeZAdd score (hslices key (.head _)) hmember
  | lIndex =>
    exact (reads_takeI64 _).bind (reads_takeLenPrefixedSlice (hslices _ (.head _))).bindPure

theorem takeCommand_encode (htyped : sent.takesRedisArgs = false) (hping : sent ≠ .ping (some []))
    (hlist : sent.listLen ≤ fastMaxCollectionItems)
    (hslices : ∀ slice ∈ sent.slices, slice.length < 2 ^ 32) :
    takeCommand sent.kind (encodeCommand sent) = .ok (sent, []) := by
  by_cases hisPing : ∃ payload, sent = .ping payload
  · obtain ⟨payload, rfl⟩ := hisPing
    exact map_run (takePayload_encode fun hnil => hping (congrArg FastCommand.ping hnil)) _
  by_cases hisHello : ∃ proto, sent = .hello proto
  · obtain ⟨proto, rfl⟩ := hisHello
    exact map_run (takeHelloProto_encode proto) _
  exact (reads_takeCommand htyped (fun payload h => hisPing ⟨payload, h⟩)
    (fun proto h => hisHello ⟨proto, h⟩) hlist hslices).run

/-- A compact argument list is read back when the opcode names a Redis command. -/
theorem takeRedisCommand_encode {kind : FastCommandKind} (hname : kind.redisName ≠ none)
    (hlist : args.length ≤ fastMaxCollectionItems) (hslices : ∀ slice ∈ args, slice.length < 2 ^ 32) :
    takeRedisCommand kind (encodeCommand (.redisCommand kind args)) =
      .ok (.redisCommand kind args, []) := by
  have hnative : kind ≠ .nativeRedisCommand := fun h => hname (by rw [h]; rfl)
  rw [takeRedisCommand, if_neg fun h => hname h.1, if_neg hnative]
  exact ((reads_takeCompactLenPrefixedList hlist hslices).map _).run

theorem takeNativeRedisCommand_encode {name : Bytes} (hname : name.length < 2 ^ 32)
    (hlist : args.length ≤ fastMaxCollectionItems) (hslices : ∀ slice ∈ args, slice.length < 2 ^ 32) :
    takeRedisCommand .nativeRedisCommand (encodeCommand (.nativeRedisCommand name args)) =
      .ok (.nativeRedisCommand name args, []) := by
  rw [takeRedisCommand, if_neg (by simp), if_pos rfl]
  exact ((reads_takeLenPrefixedSlice hname).bind
    (reads_takeCompactLenPrefixedList hlist hslices).bindPure).run

variable (request : FastRequest)

/-- The flags of a request are four different bits, and no others are set. -/
theorem requestFlags_bits :
    let flags := requestFlags request
    decide (flags &&& fastFlagKeyHash ≠ 0) = request.keyHash.isSome ∧
      decide (flags &&& fastFlagRouteShard ≠ 0) = request.routeShard.isSome ∧
      decide (flags &&& fastFlagKeyTag ≠ 0) = request.keyTag.isSome ∧
      (flags &&& fastFlagRedisCommandArgs ≠ 0 ↔ request.command.takesRedisArgs = true) ∧
      flags &&& ~~~(fastFlagKeyHash ||| fastFlagRouteShard ||| fastFlagKeyTag |||
        fastFlagRedisCommandArgs) = 0 := by
  unfold requestFlags
  generalize request.keyHash.isSome = hash, request.routeShard.isSome = shard,
    request.keyTag.isSome = tag, request.command.takesRedisArgs = args
  revert hash shard tag args
  decide

/-- The flags say which of the two ways to read the body applies. -/
theorem takeCommandBody_requestFlags : takeCommandBody kind (requestFlags request) =
      if request.command.takesRedisArgs then takeRedisCommand kind else takeCommand kind :=
  ite_congr (propext (requestFlags_bits request).2.2.2.1) (fun _ => rfl) fun _ => rfl

variable {request}

theorem InLimits.slices (h : InLimits request) :
    ∀ slice ∈ request.command.slices, slice.length < 2 ^ 32 := by
  intro slice hslice
  have hlen := length_le_encodeCommand hslice
  have hbody := h.body
  simp only [encodeRequestBody, length_append] at hbody
  omega

theorem takesRedisArgs_cases (h : sent.takesRedisArgs = true) :
    (∃ kind args, sent = .redisCommand kind args) ∨
      ∃ name args, sent = .nativeRedisCommand name args := by
  cases sent with
  | redisCommand => exact .inl ⟨_, _, rfl⟩
  | nativeRedisCommand => exact .inr ⟨_, _, rfl⟩
  | _ => cases h

theorem takeCommandBody_encode (h : InLimits request) (hnamed : request.command.Named) :
    takeCommandBody request.command.kind (requestFlags request) (encodeCommand request.command) =
      .ok (request.command, []) := by
  have hslices := h.slices
  have hlist := h.list
  have hping := h.ping
  rw [takeCommandBody_requestFlags]
  generalize request.command = sent at hnamed hslices hlist hping
  cases hargs : sent.takesRedisArgs with
  | false => exact takeCommand_encode hargs hping hlist hslices
  | true =>
    rcases takesRedisArgs_cases hargs with ⟨kind, args, rfl⟩ | ⟨name, args, rfl⟩
    · exact takeRedisCommand_encode hnamed hlist hslices
    · exact takeNativeRedisCommand_encode (hslices name (.head _)) hlist fun slice hslice =>
        hslices slice (.tail _ hslice)

/-- Without a Redis command behind the opcode, a compact list is refused or taken for a native
command with a name. -/
theorem takeRedisCommand_ne {kind : FastCommandKind} {body rest : Bytes} (h : kind.redisName = none) :
    takeRedisCommand kind body ≠ .ok (.redisCommand kind args, rest) := by
  rw [takeRedisCommand]
  split_ifs with hunknown hnative
  · exact fun hread => nomatch hread
  · intro hread
    obtain ⟨name, _, -, hread⟩ := bind_eq_ok.mp hread
    obtain ⟨args, _, -, hread⟩ := bind_eq_ok.mp hread
    cases hread
  · exact absurd ⟨h, hnative⟩ hunknown

theorem reads_takeFlagged {take : ByteReader α} {encode : α → Bytes}
    (h : ∀ value, Reads take (encode value) value) (field : Option α) :
    Reads (takeFlagged field.isSome take) (field.elim [] encode) field := by
  cases field with
  | none => exact reads_pure none
  | some => exact (h _).map some

/-- The routing fields are read back, and the command decides. -/
theorem takeRequest_encode (request : FastRequest) :
    takeRequest request.command.kind (requestFlags request) (encodeRequestBody request) = (do
        let parsed ← takeCommandBody request.command.kind (requestFlags request)
        ensureFinished "fast request"
        return { request with command := parsed } : ByteReader FastRequest)
          (encodeCommand request.command) := by
  obtain ⟨hhash, hshard, htag, -⟩ := requestFlags_bits request
  simp only [takeRequest, hhash, hshard, htag, encodeRequestBody, append_assoc]
  rw [(reads_takeFlagged reads_takeU64 request.keyHash).bind_apply,
    (reads_takeFlagged reads_takeU32 request.routeShard).bind_apply,
    (reads_takeFlagged reads_takeU64 request.keyTag).bind_apply]

theorem takeRequest_encode_iff (h : InLimits request) {rest : Bytes} :
    takeRequest request.command.kind (requestFlags request) (encodeRequestBody request) =
      .ok (request, rest) ↔ request.command.Named ∧ rest = [] := by
  rw [takeRequest_encode]
  constructor
  · intro hread
    obtain ⟨parsed, after, hparsed, hread⟩ := bind_eq_ok.mp hread
    obtain ⟨_, _, hfinished, hread⟩ := bind_eq_ok.mp hread
    rw [ensureFinished] at hfinished
    split_ifs at hfinished with hafter
    cases hfinished
    have hout := Except.ok.inj hread
    have hcommand : parsed = request.command := congrArg (fun out => out.1.command) hout
    refine ⟨?_, (congrArg Prod.snd hout).symm.trans (not_not.mp hafter)⟩
    rw [hcommand, takeCommandBody_requestFlags] at hparsed
    generalize request.command = sent at hparsed
    cases sent with
    | redisCommand => exact fun hname => takeRedisCommand_ne hname hparsed
    | _ => trivial
  · rintro ⟨hnamed, rfl⟩
    exact bind_eq_ok.mpr ⟨_, _, takeCommandBody_encode h hnamed, rfl⟩

theorem decodeRequestFrame_header (code : UInt8) (n : ℕ) (tail : Bytes) :
    decodeRequestFrame kind (fastHeader fastRequestMagic fastProtocolVersion code
        (requestFlags request) n ++ tail) =
      if tail.length < n % 2 ^ 32 then .ok none
      else (takeRequest kind (requestFlags request) (tail.take (n % 2 ^ 32))).map fun out =>
        some (out.1, requestHeaderLen + n % 2 ^ 32) := by
  have hlen : (fastHeader fastRequestMagic fastProtocolVersion code (requestFlags request) n ++
      tail).length = 8 + tail.length := by simp
  have hshort : 8 + tail.length < 8 + n % 2 ^ 32 ↔ tail.length < n % 2 ^ 32 := by omega
  rw [decodeRequestFrame, requestHeaderLen]
  simp only [fastHeader_flags, fastHeader_bodyLen, fastHeader_body, hlen]
  rw [if_neg (not_not.mpr (requestFlags_bits request).2.2.2.2)]
  simp only [hshort]

theorem decodeRequest_header (n : ℕ) (tail : Bytes) :
    decodeRequest (fastHeader fastRequestMagic fastProtocolVersion kind.opcode.toUInt8 flags n ++
        tail) =
      decodeRequestFrame kind (fastHeader fastRequestMagic fastProtocolVersion
        kind.opcode.toUInt8 flags n ++ tail) := by
  have hkind : fromU8 kind.opcode.toUInt8 = .ok kind := by rw [fromU8, kind.fromOpcode_opcode]
  rw [decodeRequest, if_neg (by simp [fastHeader]), fastHeader_magic, if_neg (by simp),
    if_neg (by simp [requestHeaderLen])]
  simp only [fastHeader_version, fastHeader_code, hkind]
  rw [if_neg (by simp)]

theorem length_encodeRequest (request : FastRequest) :
    (encodeRequest request).length = requestHeaderLen + (encodeRequestBody request).length := by
  simp [encodeRequest, requestHeaderLen]

/-- A request within the limits is read back, with the length of its frame, exactly when its opcode
says how to. -/
theorem decodeRequest_encode_iff (h : InLimits request) (rest : Bytes) :
    decodeRequest (encodeRequest request ++ rest) =
      .ok (some (request, (encodeRequest request).length)) ↔ request.command.Named := by
  have hlen := Nat.mod_eq_of_lt h.body
  rw [length_encodeRequest, encodeRequest, append_assoc, decodeRequest_header,
    decodeRequestFrame_header, hlen, if_neg (by simp), take_left, Except.map_eq_ok]
  constructor
  · rintro ⟨⟨decoded, after⟩, hread, hout⟩
    have hdecoded : decoded = request := congrArg Prod.fst (Option.some.inj hout)
    rw [hdecoded] at hread
    exact ((takeRequest_encode_iff h).mp hread).1
  · intro hnamed
    exact ⟨(request, []), (takeRequest_encode_iff h).mpr ⟨hnamed, rfl⟩, rfl⟩

/-- A part of a frame is not enough, and it is not refused. -/
theorem decodeRequest_take (h : InLimits request) {n : ℕ} (hn : n < (encodeRequest request).length) :
    decodeRequest ((encodeRequest request).take n) = .ok none := by
  rcases Nat.lt_or_ge n 8 with hshort | hlong
  · have hlen : ((encodeRequest request).take n).length < requestHeaderLen :=
      (length_take_le n _).trans_lt hshort
    cases n with
    | zero => rfl
    | succ n =>
      have hmagic : ((encodeRequest request).take (n + 1)).getD 0 0 = fastRequestMagic := rfl
      rw [decodeRequest, if_neg (by simp [encodeRequest, fastHeader]), hmagic, if_neg (by simp),
        if_pos hlen]
  · rw [length_encodeRequest, requestHeaderLen] at hn
    rw [encodeRequest, take_append, length_fastHeader, take_of_length_le (by simpa),
      decodeRequest_header, decodeRequestFrame_header, if_pos]
    rw [length_take, Nat.mod_eq_of_lt h.body]
    omega

theorem frame_of_decodeRequest {buffer : Bytes} {out : FastRequest × ℕ}
    (h : decodeRequest buffer = .ok (some out)) :
    ∃ kind, decodeRequestFrame kind buffer = .ok (some out) := by
  simp only [decodeRequest] at h
  split_ifs at h
  · cases Except.ok.inj h
  · cases Except.ok.inj h
  · split at h
    · cases h
    · exact ⟨_, h⟩

/-- What is accepted was cut out of the frame. -/
theorem decodeRequest_slices {buffer : Bytes} {decoded : FastRequest} {frameLen : ℕ}
    (h : decodeRequest buffer = .ok (some (decoded, frameLen))) :
    frameLen ≤ buffer.length ∧
      ∀ slice ∈ decoded.command.slices, slice <:+: (buffer.take frameLen).drop requestHeaderLen := by
  obtain ⟨kind, hframe⟩ := frame_of_decodeRequest h
  simp only [decodeRequestFrame] at hframe
  split_ifs at hframe with _ hshort
  · cases Except.ok.inj hframe
  · obtain ⟨⟨read, rest⟩, hread, hout⟩ := Except.map_eq_ok.mp hframe
    obtain ⟨rfl, rfl⟩ := Prod.mk.inj (Option.some.inj hout)
    obtain ⟨used, hused, hslices⟩ := within_takeRequest _ _ _ _ _ hread
    refine ⟨Nat.le_of_not_lt hshort, fun slice hslice => ?_⟩
    rw [drop_take, Nat.add_sub_cancel_left]
    show slice <:+: byteSlice buffer requestHeaderLen _
    rw [hused]
    exact ((hslices slice hslice).resolve_left not_mem_nil).trans (prefix_append used rest).isInfix

/-- The codec of requests. A request within the limits is read back with the length of its frame,
whatever follows, exactly when its opcode says how to read it; a proper part of its frame asks for
more. Every slice of an accepted request lies inside its frame. A number in base 128 that is
accepted is read as the number it denotes exactly when that fits 32 bits. -/
theorem request_codec (request : FastRequest) (buffer : Bytes) (field : String) :
    (InLimits request → (∀ rest, decodeRequest (encodeRequest request ++ rest) =
        .ok (some (request, (encodeRequest request).length)) ↔ request.command.Named) ∧
      ∀ n < (encodeRequest request).length,
        decodeRequest ((encodeRequest request).take n) = .ok none) ∧
    (∀ decoded frameLen, decodeRequest buffer = .ok (some (decoded, frameLen)) →
      frameLen ≤ buffer.length ∧ ∀ slice ∈ decoded.command.slices,
        slice <:+: (buffer.take frameLen).drop requestHeaderLen) ∧
    ∀ number rest, takeVarU32 field buffer = .ok (number, rest) →
      (number = varNumber buffer ↔ varNumber buffer < 2 ^ 32) := by
  refine ⟨fun h => ⟨decodeRequest_encode_iff h, fun n hn => decodeRequest_take h hn⟩,
    fun decoded frameLen => decodeRequest_slices, fun number rest hread => ?_⟩
  rw [takeVarU32_value hread]
  exact ⟨fun hexact => by rw [← hexact]; exact Nat.mod_lt _ (by decide), Nat.mod_eq_of_lt⟩

/-- A `GET` with a routing field, and a number of two digits. -/
theorem request_codec_get : decodeRequest (encodeRequest ⟨some 7, none, none, .get [1, 2]⟩ ++ [9]) =
        .ok (some (⟨some 7, none, none, .get [1, 2]⟩, 22)) ∧
      decodeRequest ((encodeRequest ⟨some 7, none, none, .get [1, 2]⟩).take 21) = .ok none ∧
      (300 : ℕ) = varNumber [0xAC, 0x02] := by
  have hlimits : InLimits ⟨some 7, none, none, .get [1, 2]⟩ := ⟨by simp, by decide, by decide⟩
  have hcodec := request_codec ⟨some 7, none, none, .get [1, 2]⟩ [0xAC, 0x02] "count"
  exact ⟨((hcodec.1 hlimits).1 [9]).mpr trivial, (hcodec.1 hlimits).2 21 (by decide),
    (hcodec.2.2 300 [] rfl).mpr (by decide)⟩

/-- A request whose argument count is written as 2 to the power of 32: it is accepted with no
arguments at all. -/
theorem wideCount_accepted :
    decodeRequest [0xFA, 2, 1, 8, 5, 0, 0, 0, 0x80, 0x80, 0x80, 0x80, 0x10] =
        .ok (some (⟨none, none, none, .redisCommand .get []⟩, 13)) ∧
      takeVarU32 "fast Redis command arguments" [0x80, 0x80, 0x80, 0x80, 0x10] = .ok (0, []) ∧
      varNumber [0x80, 0x80, 0x80, 0x80, 0x10] = 2 ^ 32 :=
  ⟨rfl, rfl, rfl⟩

end FastCodec
end ShardKv
