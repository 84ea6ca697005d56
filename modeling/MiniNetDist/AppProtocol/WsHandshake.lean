import MiniNetDist.AppProtocol.WsBase64
import MiniNetDist.AppProtocol.WsSha1

/-! The opening handshake of `mini-app-protocol/src/websocket.c`, between a client and a server. The headers are searched
for in the whole message, and the client takes over the answer without a check. -/

namespace MiniNetDist.AppProtocol.WebSocket

open Library Library.Tokens

def WS_MAX_URI : Nat := 256
def WS_MAX_HOST : Nat := 128
def WS_MAX_KEY : Nat := 64
def WS_MAX_ACCEPT : Nat := 32
def WS_GUID : CString := ascii "258EAFA5-E914-47DA-95CA-C5AB0DC85B11"

structure WSConnection where
  host : CharArray WS_MAX_HOST
  uri : CharArray WS_MAX_URI
  key : CharArray WS_MAX_KEY
  accept : CharArray WS_MAX_ACCEPT
  handshakeDone : Bool
  deriving DecidableEq, Repr

def wsHandshakeClientInit (host uri : Option CString) : WSConnection where
  host := .store _ (host.getD (ascii "localhost"))
  uri := .store _ (uri.getD (ascii "/"))
  key := .store _ (ascii "0123456789ABCDEF")
  accept := .store _ []
  handshakeDone := false

def wsHandshakeServerInit : WSConnection := ⟨.store _ [], .store _ [], .store _ [], .store _ [], false⟩

/-- What `snprintf` leaves in a buffer. -/
def snprintf (outSize : Nat) (text : Bytes) : Bytes := if outSize = 0 then [] else text.take (outSize - 1) ++ [0]

/-- The length of the text, and the buffer. -/
def wsHandshakeBuildClient (conn : WSConnection) (outSize : Nat) : Nat × Bytes :=
  let text := ascii "GET " ++ conn.uri.text ++ ascii " HTTP/1.1\r\nHost: " ++ conn.host.text ++
    ascii "\r\nUpgrade: websocket\r\nConnection: Upgrade\r\nSec-WebSocket-Key: " ++ conn.key.text ++
    ascii "\r\nSec-WebSocket-Version: 13\r\n\r\n"
  (text.length, snprintf outSize text)

/-- The text up to the end of its line, as far as there is room for it. -/
def lineText (size : Nat) (text : CString) : CharArray size :=
  .store size (text.takeWhile fun char => char ≠ 13 && char ≠ 10)

def wsHandshakeParseServer (data : Bytes) (conn : WSConnection) : Int × WSConnection :=
  let d := cString data
  if strstr (ascii "Upgrade: websocket") d = none ∧ strstr (ascii "Connection: Upgrade") d = none then (-1, conn)
  else if strstr (ascii "101") d = none then (-2, conn)
  else
    match strstr (ascii "Sec-WebSocket-Accept: ") d with
    | some accept => (0, { conn with accept := lineText _ (d.drop (accept + 22)), handshakeDone := true })
    | none => (0, conn)

def wsHandshakeParseClient (data : Bytes) (conn : WSConnection) : Int × WSConnection :=
  let d := cString data
  match strstr (ascii "Sec-WebSocket-Key: ") d with
  | none => (-2, conn)
  | some key =>
    let conn := { conn with key := lineText _ (d.drop (key + 19)) }
    match strstr (ascii "Host: ") d with
    | some host => (0, { conn with host := lineText _ (d.drop (host + 6)) })
    | none => (0, conn)

/-- None where the hash is computed beyond its array. -/
def wsHandshakeBuildServer (conn : WSConnection) (outSize : Nat) : Option (Nat × Bytes) :=
  (wsSha1Hash (cString (snprintf 256 (conn.key.text ++ WS_GUID)))).map fun sha1Hash =>
    let text := ascii "HTTP/1.1 101 Switching Protocols\r\nUpgrade: websocket\r\nConnection: Upgrade\r\n" ++
      ascii "Sec-WebSocket-Accept: " ++ cString (wsBase64Encode sha1Hash 32) ++ ascii "\r\n\r\n"
    (text.length, snprintf outSize text)

/-- The names that the server searches for are not in the request before their lines, and these lines are whole. -/
structure WSConnection.Plain (conn : WSConnection) : Prop where
  keyInUri : strstr (ascii "Sec-WebSocket-Key: ") (ascii "GET " ++ conn.uri.text ++ ascii " HTTP/1.1") = none
  keyInHost : strstr (ascii "Sec-WebSocket-Key: ") (ascii "Host: " ++ conn.host.text) = none
  hostInUri : strstr (ascii "Host: ") (ascii "GET " ++ conn.uri.text ++ ascii " HTTP/1.1") = none
  host : ∀ char ∈ conn.host.text, char ≠ 13 ∧ char ≠ 10
  key : ∀ char ∈ conn.key.text, char ≠ 13 ∧ char ≠ 10

section Texts

variable {text more : Bytes} {outSize size : Nat}

theorem cString_snprintf (plain : 0 ∉ text) (room : text.length < outSize) : cString (snprintf outSize text) = text := by
  rw [snprintf, if_neg (Nat.ne_zero_of_lt room), List.take_of_length_le (Nat.le_sub_one_of_lt room),
    cString_append_zero, cString_eq plain]

theorem lineText_eq (array : CharArray size) (whole : ∀ char ∈ array.text, char ≠ 13 ∧ char ≠ 10) (more : Bytes) :
    lineText size (array.text ++ 13 :: more) = array := by
  have line : (array.text ++ 13 :: more).takeWhile (fun char => char ≠ 13 && char ≠ 10) = array.text := by
    rw [List.takeWhile_append_of_pos, List.takeWhile_cons_of_neg (by simp), List.append_nil]
    intro char held
    simpa using whole char held
  rw [lineText, line, CharArray.store_text]

end Texts

section Request

variable {client conn : WSConnection} {outSize : Nat}

/-- The request by its lines. -/
theorem wsHandshakeBuildClient_lines (conn : WSConnection) (outSize : Nat) : ∃ text,
    wsHandshakeBuildClient conn outSize = (text.length, snprintf outSize text) ∧
      text = (ascii "GET " ++ conn.uri.text ++ ascii " HTTP/1.1") ++ 13 :: 10 ::
        ((ascii "Host: " ++ conn.host.text) ++ 13 :: 10 ::
          (ascii "Upgrade: websocket\r\nConnection: Upgrade\r\nSec-WebSocket-Key: " ++
            (conn.key.text ++ 13 :: (10 :: ascii "Sec-WebSocket-Version: 13\r\n\r\n")))) := by
  have host : ascii " HTTP/1.1\r\nHost: " = ascii " HTTP/1.1" ++ 13 :: 10 :: ascii "Host: " := by decide +kernel
  have key : ascii "\r\nUpgrade: websocket\r\nConnection: Upgrade\r\nSec-WebSocket-Key: " =
      13 :: 10 :: ascii "Upgrade: websocket\r\nConnection: Upgrade\r\nSec-WebSocket-Key: " := by decide +kernel
  have version : ascii "\r\nSec-WebSocket-Version: 13\r\n\r\n" =
      13 :: 10 :: ascii "Sec-WebSocket-Version: 13\r\n\r\n" := by decide +kernel
  refine ⟨_, rfl, ?_⟩
  rw [host, key, version]
  simp only [List.append_assoc, List.cons_append]

/-- The server reads the key and the host of the client. -/
theorem wsHandshakeParseClient_request (plain : client.Plain) (room : (wsHandshakeBuildClient client outSize).1 < outSize)
    (conn : WSConnection) : wsHandshakeParseClient (wsHandshakeBuildClient client outSize).2 conn =
      (0, { conn with key := client.key, host := client.host }) := by
  obtain ⟨text, built, lines⟩ := wsHandshakeBuildClient_lines client outSize
  rw [built] at room ⊢
  have zeros : 0 ∉ text := by
    rw [lines]
    simp [ascii, client.uri.plain, client.host.plain, client.key.plain]
  have keyBehind : Found (ascii "Sec-WebSocket-Key: ")
      (ascii "Upgrade: websocket\r\nConnection: Upgrade\r\nSec-WebSocket-Key: ") [] := ⟨41, by decide +kernel, by decide +kernel⟩
  have key : Found (ascii "Sec-WebSocket-Key: ") text
      (client.key.text ++ 13 :: (10 :: ascii "Sec-WebSocket-Version: 13\r\n\r\n")) := by
    rw [lines]
    exact ((keyBehind.append (by decide) _).pastLine plain.keyInHost (by decide) (by decide)).pastLine plain.keyInUri
      (by decide) (by decide)
  have host : ∃ more, Found (ascii "Host: ") text (client.host.text ++ 13 :: more) := by
    rw [lines]
    refine ⟨_, ((Found.here (by decide) _).pastLine plain.hostInUri (by decide) (by decide))⟩
  obtain ⟨place, found, behind⟩ := key
  obtain ⟨more, hostPlace, hostFound, hostBehind⟩ := host
  have keyLength : (ascii "Sec-WebSocket-Key: ").length = 19 := by decide
  have hostLength : (ascii "Host: ").length = 6 := by decide
  rw [keyLength] at behind
  rw [hostLength] at hostBehind
  rw [wsHandshakeParseClient]
  dsimp only
  rw [cString_snprintf zeros room, found, hostFound]
  dsimp only
  rw [behind, hostBehind, lineText_eq client.key plain.key, lineText_eq client.host plain.host]

end Request

section Response

variable {server client : WSConnection} {outSize : Nat}

/-- What the server makes of a key: the base64 of its hash, but for the first character. -/
def wsAccept (key : CString) : CString := Base64.pad :: (Base64.encode (Sha1.hash (key ++ WS_GUID))).tail

/-- The answer up to the accepted key. -/
def answerHead : Bytes :=
  ascii "HTTP/1.1 101 Switching Protocols\r\nUpgrade: websocket\r\nConnection: Upgrade\r\nSec-WebSocket-Accept: "

def wsAnswer (key : CString) : Bytes := answerHead ++ (wsAccept key ++ 13 :: (10 :: ascii "\r\n"))

theorem visible_wsAccept {key : CString} {char : UInt8} (held : char ∈ wsAccept key) : 43 ≤ char := by
  rcases List.mem_cons.mp held with rfl | later
  · decide
  · exact Base64.le_of_mem_encode (List.mem_of_mem_tail later)

theorem length_wsAccept (key : CString) : (wsAccept key).length = 28 := by
  rw [wsAccept, List.length_cons, List.length_tail, Base64.length_encode, Sha1.length_hash]

theorem text_wsAccept (key : CString) : (CharArray.store WS_MAX_ACCEPT (wsAccept key)).text = wsAccept key := by
  apply CharArray.text_store
  · rw [length_wsAccept]
    decide
  · exact fun zero => absurd (visible_wsAccept zero) (by decide)

theorem length_wsAnswer (key : CString) : (wsAnswer key).length = 129 := by
  have head : answerHead.length = 97 := by decide +kernel
  rw [wsAnswer, List.length_append, List.length_append, head, length_wsAccept]
  rfl

theorem zero_notMem_wsAnswer (key : CString) : 0 ∉ wsAnswer key := by
  have head : 0 ∉ answerHead := by decide +kernel
  have rest : 0 ∉ 13 :: (10 :: ascii "\r\n") := by decide
  intro zero
  rcases List.mem_append.mp zero with first | later
  · exact head first
  · rcases List.mem_append.mp later with here | last
    · exact absurd (visible_wsAccept here) (by decide)
    · exact rest last

/-- The hash is always computed, since the key and the GUID are short. -/
theorem wsHandshakeBuildServer_eq (server : WSConnection) (outSize : Nat) :
    wsHandshakeBuildServer server outSize =
      some ((wsAnswer server.key.text).length, snprintf outSize (wsAnswer server.key.text)) := by
  have short : (server.key.text ++ WS_GUID).length < 120 := by
    have guid : WS_GUID.length = 36 := by decide
    have fits : server.key.text.length ≤ 63 := server.key.fits
    rw [List.length_append, guid]
    omega
  have zeros : 0 ∉ server.key.text ++ WS_GUID := by
    have guid : 0 ∉ WS_GUID := by decide
    exact fun zero => (List.mem_append.mp zero).elim server.key.plain guid
  have encoded : cString (wsBase64Encode (Sha1.hash (server.key.text ++ WS_GUID)) 32) = wsAccept server.key.text := by
    have size := Sha1.length_hash (server.key.text ++ WS_GUID)
    rw [cString_wsBase64Encode (by rw [size]; decide), if_neg (List.ne_nil_of_length_pos (by rw [size]; decide)), wsAccept]
  have head : ascii "HTTP/1.1 101 Switching Protocols\r\nUpgrade: websocket\r\nConnection: Upgrade\r\n" ++
      ascii "Sec-WebSocket-Accept: " = answerHead := by decide +kernel
  have last : ascii "\r\n\r\n" = 13 :: (10 :: ascii "\r\n") := by decide
  rw [wsHandshakeBuildServer, cString_snprintf zeros (Nat.lt_trans short (by decide)), wsSha1Hash_short short,
    Option.map_some]
  dsimp only
  rw [encoded, head, last, List.append_assoc]
  rfl

/-- The client takes over what the server answers. -/
theorem wsHandshakeParseServer_answer (key : CString) (room : 129 < outSize) (conn : WSConnection) :
    wsHandshakeParseServer (snprintf outSize (wsAnswer key)) conn =
      (0, { conn with accept := .store _ (wsAccept key), handshakeDone := true }) := by
  have begins : Found (ascii "Sec-WebSocket-Accept: ") answerHead [] := ⟨75, by decide +kernel, by decide +kernel⟩
  have upgrade : strstr (ascii "Upgrade: websocket") answerHead = some 34 := by decide +kernel
  have status : strstr (ascii "101") answerHead = some 9 := by decide +kernel
  obtain ⟨place, found, behind⟩ := begins.append (by decide) (wsAccept key ++ 13 :: (10 :: ascii "\r\n"))
  have nameLength : (ascii "Sec-WebSocket-Accept: ").length = 22 := by decide
  rw [nameLength, List.nil_append] at behind
  have visible : ∀ char ∈ (CharArray.store WS_MAX_ACCEPT (wsAccept key)).text, char ≠ 13 ∧ char ≠ 10 := by
    rw [text_wsAccept]
    intro char held
    have least := visible_wsAccept held
    constructor
    · rintro rfl
      exact absurd least (by decide)
    · rintro rfl
      exact absurd least (by decide)
  have read := lineText_eq _ visible (10 :: ascii "\r\n")
  rw [text_wsAccept] at read
  rw [wsHandshakeParseServer, cString_snprintf (zero_notMem_wsAnswer key) (length_wsAnswer key ▸ room), wsAnswer,
    strstr_append (by decide) upgrade, strstr_append (by decide) status, found]
  dsimp only
  rw [behind, read]
  rfl

/-- The handshake succeeds: the server reads the key and the host of the client, and the client takes over the answer that
belongs to its key. That answer is the hash of the key and the GUID in base64 but for the first character, so that no
other client can decode it. -/
theorem wsHandshake_completes (plain : client.Plain) {clientSize serverSize : Nat}
    (room : (wsHandshakeBuildClient client clientSize).1 < clientSize) (roomToo : 129 < serverSize) :
    ∃ server answer agreed,
      wsHandshakeParseClient (wsHandshakeBuildClient client clientSize).2 wsHandshakeServerInit = (0, server) ∧
      server.key = client.key ∧ server.host = client.host ∧
      wsHandshakeBuildServer server serverSize = some answer ∧
      wsHandshakeParseServer answer.2 client = (0, agreed) ∧
      agreed.handshakeDone = true ∧
      agreed.accept.text = Base64.pad :: (Base64.encode (Sha1.hash (client.key.text ++ WS_GUID))).tail ∧
      Base64.decode agreed.accept.text = none := by
  refine ⟨_, _, _, wsHandshakeParseClient_request plain room _, rfl, rfl, wsHandshakeBuildServer_eq _ _,
    wsHandshakeParseServer_answer _ roomToo _, rfl, text_wsAccept _, ?_⟩
  exact (congrArg Base64.decode (text_wsAccept _)).trans (Base64.decode_pad _)

theorem wsHandshake_completes_chat : ∃ server answer agreed,
    wsHandshakeParseClient (wsHandshakeBuildClient (wsHandshakeClientInit (ascii "example.com") (ascii "/chat")) 1024).2
      wsHandshakeServerInit = (0, server) ∧
    server.key = (wsHandshakeClientInit (ascii "example.com") (ascii "/chat")).key ∧
    server.host = (wsHandshakeClientInit (ascii "example.com") (ascii "/chat")).host ∧
    wsHandshakeBuildServer server 1024 = some answer ∧
    wsHandshakeParseServer answer.2 (wsHandshakeClientInit (ascii "example.com") (ascii "/chat")) = (0, agreed) ∧
    agreed.handshakeDone = true ∧
    agreed.accept.text = Base64.pad :: (Base64.encode (Sha1.hash
      ((wsHandshakeClientInit (ascii "example.com") (ascii "/chat")).key.text ++ WS_GUID))).tail ∧
    Base64.decode agreed.accept.text = none := by
  have plain : (wsHandshakeClientInit (ascii "example.com") (ascii "/chat")).Plain :=
    ⟨by decide +kernel, by decide +kernel, by decide +kernel, by decide +kernel,
      by decide +kernel⟩
  exact wsHandshake_completes plain (by decide +kernel) (by decide)

end Response

end MiniNetDist.AppProtocol.WebSocket
