import Qcm.BackendEventProofs
import Qcm.BackendTransportProofs
import Qcm.Base64Lines
import Qcm.BatchMaskProofs
import Qcm.BatchRelationProofs
import Qcm.CacheBudgetProofs
import Qcm.CacheInvalidationProofs
import Qcm.CacheSegmentProofs
import Qcm.CacheSlotProofs
import Qcm.CommentReactionProofs
import Qcm.ConnectionInboxProofs
import Qcm.ContentRanges
import Qcm.DirectiveProofs
import Qcm.DownloadAnswerProofs
import Qcm.DownloadRangeProofs
import Qcm.DynamicQueueProofs
import Qcm.EntityCollectProofs
import Qcm.EntityListProofs
import Qcm.EntityLoadProofs
import Qcm.EntityPageProofs
import Qcm.EntityRedeliveryProofs
import Qcm.EntityTombstoneProofs
import Qcm.FilterConditionProofs
import Qcm.FilterRuleProofs
import Qcm.FtsQueryProofs
import Qcm.HeaderMergeProofs
import Qcm.IndexCommitProofs
import Qcm.ItemProjectionProofs
import Qcm.ItemRetentionProofs
import Qcm.LyricTotalProofs
import Qcm.MessageFilterProofs
import Qcm.MixSongProofs
import Qcm.NotModifiedProofs
import Qcm.PcmDeliveryProofs
import Qcm.PlaybackProofs
import Qcm.PlayerCommandProofs
import Qcm.PlayerNotificationProofs
import Qcm.PolicyFreshProofs
import Qcm.ProviderDeletionProofs
import Qcm.ProviderSettingsProofs
import Qcm.ProviderStampProofs
import Qcm.QueueTraversalProofs
import Qcm.RadioOpenProofs
import Qcm.RadioPagingProofs
import Qcm.RadioQueueProofs
import Qcm.ResourceBodyProofs
import Qcm.ResourceRangeProofs
import Qcm.SessionTaskProofs
import Qcm.ShuffleEditProofs
import Qcm.SizedQueue
import Qcm.StringSplit
import Qcm.SyncDropProofs
import Qcm.SyncFavoriteProofs
import Qcm.SyncLockProofs
import Qcm.SyncPruneProofs
import Qcm.TaskManagerProofs
