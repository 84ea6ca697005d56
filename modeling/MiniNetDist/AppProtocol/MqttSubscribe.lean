import MiniNetDist.AppProtocol.MqttBroker

/-! The SUBSCRIBE packet of `mini-app-protocol/src/mqtt.c`. Its reader goes on to the end of the input, however long the
packet says it is. -/

namespace MiniNetDist.AppProtocol.Mqtt

open Library

/-- A topic in a packet, with the two low bits of its QoS. -/
def MQTTTopic.encode (topic : MQTTTopic) : Bytes := mqttEncodeUtf8 topic.name.text ++ [topic.qos &&& 0x03]

section Subscribe

variable {packetId : BitVec 16} {topics : List MQTTTopic} {outSize maxTopics : Nat} {out : Bytes}

/-- What a reader makes of a topic: its QoS is cut to two bits. -/
def MQTTTopic.masked (topic : MQTTTopic) : MQTTTopic := { topic with qos := topic.qos &&& 0x03 }

end Subscribe

section Delivery

variable {broker : MQTTBroker} {id : CString} {client : MQTTClient} {topics : List MQTTTopic}

end Delivery

end MiniNetDist.AppProtocol.Mqtt
